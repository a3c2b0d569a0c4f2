import ScriptMachine.Proofs.TableRelations

/-! What look-ups find in a table that was made from others, and tables all of whose values have a
property. -/

namespace ScriptMachine.Table

variable {α β : Type}

theorem get?_filterKeys (table : Table α) (keep : String → Bool) (name : String) :
    (table.filterKeys keep).get? name = if keep name then table.get? name else none := by
  simp only [get?, filterKeys, Std.ExtTreeMap.getElem?_filter']
  cases table.tree[name]? with
  | none => simp
  | some value => simp [Option.filter_some]

theorem get?_insertAll_entries (table other : Table α) (name : String) :
    (table.insertAll other.entries).get? name = (other.get? name).or (table.get? name) := by
  have names : other.entries.map Prod.fst = other.keys := Std.ExtTreeMap.map_fst_toList_eq_keys
  cases held : other.get? name with
  | some value =>
    apply get?_insertAll_of_mem
    · rw [names]
      exact other.nodup_keys
    · exact (other.mem_entries_iff name value).mpr held
  | none =>
    apply get?_insertAll_of_not_mem
    rw [names, mem_keys_iff, held]
    simp

theorem nodup_map_fst {table : Table α} {list : List (String × α)} (visits : list.Perm table.entries) :
    (list.map Prod.fst).Nodup := by
  rw [(visits.map Prod.fst).nodup_iff, show table.entries.map Prod.fst = table.keys from
    Std.ExtTreeMap.map_fst_toList_eq_keys]
  exact table.nodup_keys

/-- The entries of a table make that table in any order. -/
theorem insertAll_of_perm {table : Table α} {list : List (String × α)} (visits : list.Perm table.entries) :
    Table.insertAll ∅ list = table := by
  refine Table.ext fun key => ?_
  cases held : table.get? key with
  | some value =>
    refine get?_insertAll_of_mem ∅ (nodup_map_fst visits) (visits.mem_iff.mpr ?_)
    exact (table.mem_entries_iff key value).mpr held
  | none =>
    refine (get?_insertAll_of_not_mem ∅ fun member => ?_).trans (get?_empty key)
    obtain ⟨⟨name, value⟩, found, rfl⟩ := List.mem_map.mp member
    cases held.symm.trans ((table.mem_entries_iff name value).mp (visits.mem_iff.mp found))

theorem head_keys_le (table : Table α) {first : String} {rest : List String}
    (listed : table.keys = first :: rest) {name : String} (member : name ∈ table.keys) :
    first ≤ name := by
  have ordered : (first :: rest).Pairwise fun one other => compare one other = .lt :=
    listed ▸ Std.ExtTreeMap.ordered_keys
  rw [listed] at member
  rcases List.mem_cons.mp member with rfl | later
  · exact String.le_refl _
  · have less : first < name := compareOfLessAndEq_eq_lt.mp ((List.pairwise_cons.mp ordered).1 name later)
    exact String.not_lt.mp (String.lt_asymm less)

/-- The library relates keys to entries, but values only for the trees underneath. -/
theorem map_snd_entries (table : Table α) : table.entries.map Prod.snd = table.values := by
  obtain ⟨⟨⟨tree⟩⟩⟩ := table
  induction tree using Quotient.ind with
  | _ tree =>
    change (Std.DTreeMap.Internal.Impl.Const.toList tree.inner).map Prod.snd = tree.inner.values
    rw [Std.DTreeMap.Internal.Impl.Const.toList_eq_toListModel_map,
      Std.DTreeMap.Internal.Impl.values_eq_map_snd, List.map_map]
    rfl

theorem get?_mapValues (table : Table α) (f : α → β) (name : String) :
    (table.mapValues f).get? name = (table.get? name).map f := by
  simp only [get?, mapValues, Std.ExtTreeMap.getElem?_map]

/-- A table with one entry has no other. -/
theorem eq_of_get?_single {key name : String} {value other : α}
    (found : (Table.empty.insert key value).get? name = some other) : name = key ∧ other = value := by
  rw [get?_insert] at found
  split at found
  next same => exact ⟨same.symm, (Option.some.inj found).symm⟩
  next => cases found.symm.trans (get?_empty name)

theorem mem_values {table : Table α} {name : String} {value : α} (found : table.get? name = some value) :
    value ∈ table.values := by
  rw [← map_snd_entries]
  exact List.mem_map_of_mem ((table.mem_entries_iff name value).mpr found)

def All (holds : α → Prop) (table : Table α) : Prop :=
  ∀ name value, table.get? name = some value → holds value

namespace All

variable {holds : α → Prop} {table : Table α}

theorem empty : All holds (∅ : Table α) := by
  intro name value found
  rw [show (∅ : Table α).get? name = none from get?_empty name] at found
  cases found

theorem insert (all : All holds table) (name : String) {value : α} (new : holds value) :
    All holds (table.insert name value) := by
  intro other found there
  rw [get?_insert] at there
  split at there
  · cases there
    exact new
  · exact all other found there

theorem erase (all : All holds table) (name : String) : All holds (table.erase name) := by
  intro other found there
  rw [get?_erase] at there
  split at there
  · cases there
  · exact all other found there

theorem filterKeys (all : All holds table) (keep : String → Bool) :
    All holds (table.filterKeys keep) := by
  intro other found there
  rw [get?_filterKeys] at there
  split at there
  · exact all other found there
  · cases there

theorem insertAll (all : All holds table) {list : List (String × α)}
    (each : ∀ entry ∈ list, holds entry.2) : All holds (table.insertAll list) := by
  induction list generalizing table with
  | nil => exact all
  | cons entry rest ih =>
    apply ih (all.insert entry.1 (each entry List.mem_cons_self))
    intro later member
    exact each later (List.mem_cons_of_mem _ member)

theorem ofList {list : List (String × α)} (each : ∀ entry ∈ list, holds entry.2) :
    All holds (ofList list) :=
  insertAll empty each

theorem entries (all : All holds table) : ∀ entry ∈ table.entries, holds entry.2 := by
  intro entry member
  exact all entry.1 entry.2 ((table.mem_entries_iff entry.1 entry.2).mp member)

theorem values (all : All holds table) : ∀ value ∈ table.values, holds value := by
  rw [← map_snd_entries]
  intro value member
  obtain ⟨entry, inside, rfl⟩ := List.mem_map.mp member
  exact all.entries entry inside

theorem getD (all : All holds table) (name : String) {default : α} (given : holds default) :
    holds ((table.get? name).getD default) := by
  cases found : table.get? name with
  | none => exact given
  | some value => exact all name value found

end All

end ScriptMachine.Table
