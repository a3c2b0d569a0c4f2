import ScriptMachine.Table
import Mathlib.Data.List.Perm.Subperm

/-! Tables that have the same keys and related values under them. -/

namespace ScriptMachine.Table

variable {α β : Type}

theorem mem_keys_iff (table : Table α) (key : String) :
    key ∈ table.keys ↔ ∃ value, table.get? key = some value := by
  rw [← Option.isSome_iff_exists]
  exact Std.ExtTreeMap.mem_keys.trans Std.ExtTreeMap.mem_iff_isSome_getElem?

theorem nodup_keys (table : Table α) : table.keys.Nodup := Std.ExtTreeMap.nodup_keys

theorem length_keys (table : Table α) : table.keys.length = table.size := Std.ExtTreeMap.length_keys

/-- Tables with the same keys and related values under them. -/
structure Agree (related : α → β → Prop) (first : Table α) (second : Table β) : Prop where
  keys : ∀ key, key ∈ first.keys ↔ key ∈ second.keys
  values : ∀ key value other, first.get? key = some value → second.get? key = some other →
    related value other

namespace Agree

variable {related weaker : α → β → Prop} {first : Table α} {second : Table β}

theorem mono (implies : ∀ value other, related value other → weaker value other)
    (agree : Agree related first second) : Agree weaker first second :=
  ⟨agree.keys, fun key value other held there => implies _ _ (agree.values key value other held there)⟩

theorem of_rel (each : ∀ key, Option.Rel related (first.get? key) (second.get? key)) :
    Agree related first second := by
  refine ⟨fun key => ?_, fun key value other held there => ?_⟩
  · rw [mem_keys_iff, mem_keys_iff]
    generalize first.get? key = held, second.get? key = there, each key = both
    cases both <;> simp
  · have both := each key
    rw [held, there] at both
    cases both with
    | some holds => exact holds

theorem size_eq (agree : Agree related first second) : first.size = second.size := by
  have same : first.keys.Perm second.keys :=
    (List.perm_ext_iff_of_nodup first.nodup_keys second.nodup_keys).mpr agree.keys
  rw [← length_keys, ← length_keys, same.length_eq]

theorem partner (agree : Agree related first second) {key : String} {value : α}
    (held : first.get? key = some value) :
    ∃ other, second.get? key = some other ∧ related value other := by
  have found : key ∈ first.keys := (mem_keys_iff first key).mpr ⟨value, held⟩
  obtain ⟨other, there⟩ := (mem_keys_iff second key).mp ((agree.keys key).mp found)
  exact ⟨other, there, agree.values key value other held there⟩

theorem origin (agree : Agree related first second) {key : String} {other : β}
    (there : second.get? key = some other) :
    ∃ value, first.get? key = some value ∧ related value other := by
  have found : key ∈ second.keys := (mem_keys_iff second key).mpr ⟨other, there⟩
  obtain ⟨value, held⟩ := (mem_keys_iff first key).mp ((agree.keys key).mpr found)
  exact ⟨value, held, agree.values key value other held there⟩

theorem optionRel (agree : Agree related first second) (key : String) :
    Option.Rel related (first.get? key) (second.get? key) := by
  cases held : first.get? key with
  | some value =>
    obtain ⟨other, there, holds⟩ := agree.partner held
    rw [there]
    exact .some holds
  | none =>
    cases there : second.get? key with
    | some other =>
      obtain ⟨value, found, -⟩ := agree.origin there
      cases held.symm.trans found
    | none => exact .none

theorem insert (agree : Agree related first second) (key : String) {value : α} {other : β}
    (holds : related value other) : Agree related (first.insert key value) (second.insert key other) := by
  refine .of_rel fun name => ?_
  rw [get?_insert, get?_insert]
  split
  · exact .some holds
  · exact agree.optionRel name

theorem flip {reversed : β → α → Prop} (agree : Agree related first second)
    (implies : ∀ key value other, first.get? key = some value → related value other →
      reversed other value) : Agree reversed second first := by
  refine ⟨fun key => (agree.keys key).symm, ?_⟩
  intro key other value there held
  exact implies key value other held (agree.values key value other held there)

theorem trans {γ : Type} {third : Table γ} {next : β → γ → Prop} {both : α → γ → Prop}
    (agree : Agree related first second) (agrees : Agree next second third)
    (implies : ∀ value middle other, related value middle → next middle other → both value other) :
    Agree both first third := by
  refine ⟨fun key => (agree.keys key).trans (agrees.keys key), ?_⟩
  intro key value other held there
  obtain ⟨middle, between, holds⟩ := agree.partner held
  exact implies value middle other holds (agrees.values key middle other between there)

theorem eq {other : Table α} (agree : Agree (· = ·) first other) : first = other := by
  ext key value
  constructor
  · intro held
    obtain ⟨partner, there, rfl⟩ := agree.partner held
    exact there
  · intro there
    obtain ⟨origin, held, rfl⟩ := agree.origin there
    exact held

theorem eq_empty (agree : Agree related first ∅) : first = ∅ := by
  ext key value
  constructor
  · intro held
    obtain ⟨other, there, -⟩ := agree.partner held
    cases there.symm.trans (get?_empty key)
  · intro held
    cases held.symm.trans (get?_empty key)

/-- Of two tables of one size, it is enough that every entry of the first has a partner. -/
theorem of_partners (size : first.size = second.size)
    (partners : ∀ key value, first.get? key = some value →
      ∃ other, second.get? key = some other ∧ related value other) :
    Agree related first second := by
  have inside : first.keys ⊆ second.keys := by
    intro key found
    obtain ⟨value, held⟩ := (mem_keys_iff first key).mp found
    obtain ⟨other, there, -⟩ := partners key value held
    exact (mem_keys_iff second key).mpr ⟨other, there⟩
  have same : first.keys.Perm second.keys := by
    refine (first.nodup_keys.subperm inside).perm_of_length_le (Nat.le_of_eq ?_)
    rw [length_keys, length_keys, size]
  refine ⟨fun key => same.mem_iff, ?_⟩
  intro key value other held there
  obtain ⟨partner, found, holds⟩ := partners key value held
  rw [there] at found
  cases found
  exact holds

end Agree

section OfList

variable {list : List (String × α)} {key : String} {value : α}

theorem get?_insertAll_of_not_mem (table : Table α) (absent : key ∉ list.map Prod.fst) :
    (table.insertAll list).get? key = table.get? key := by
  induction list generalizing table with
  | nil => rfl
  | cons entry rest ih =>
    simp only [List.map_cons, List.mem_cons, not_or] at absent
    refine (ih (table.insert entry.1 entry.2) absent.2).trans ?_
    rw [get?_insert, if_neg (Ne.symm absent.1)]

theorem get?_insertAll_of_mem (table : Table α) (distinct : (list.map Prod.fst).Nodup)
    (member : (key, value) ∈ list) : (table.insertAll list).get? key = some value := by
  induction list generalizing table with
  | nil => cases member
  | cons entry rest ih =>
    rw [List.map_cons, List.nodup_cons] at distinct
    cases member with
    | head =>
      refine (get?_insertAll_of_not_mem (table.insert key value) distinct.1).trans ?_
      rw [get?_insert, if_pos rfl]
    | tail _ later => exact ih (table.insert entry.1 entry.2) distinct.2 later

variable {related : α → β → Prop} {pairs : List (String × β)}

theorem map_fst_of_forall₂
    (each : List.Forall₂ (fun entry pair => pair.1 = entry.1 ∧ related entry.2 pair.2) list pairs) :
    pairs.map Prod.fst = list.map Prod.fst := by
  induction each with
  | nil => rfl
  | cons first _ ih => rw [List.map_cons, List.map_cons, first.1, ih]

theorem exists_of_forall₂ {relation : α → β → Prop} {values : List α} {others : List β}
    (each : List.Forall₂ relation values others) {value : α} (member : value ∈ values) :
    ∃ other ∈ others, relation value other := by
  induction each with
  | nil => cases member
  | cons first _ ih =>
    cases member with
    | head => exact ⟨_, .head _, first⟩
    | tail _ later =>
      obtain ⟨other, found, holds⟩ := ih later
      exact ⟨other, .tail _ found, holds⟩

/-- Changing the values of a table one after the other gives a table that agrees with it. -/
theorem agree_ofList {table : Table α}
    (each : List.Forall₂ (fun entry pair => pair.1 = entry.1 ∧ related entry.2 pair.2)
      table.entries pairs) : Agree related table (ofList pairs) := by
  have names : pairs.map Prod.fst = table.keys :=
    (map_fst_of_forall₂ each).trans Std.ExtTreeMap.map_fst_toList_eq_keys
  have distinct : (pairs.map Prod.fst).Nodup := names ▸ table.nodup_keys
  have partner {key : String} {value : α} (held : table.get? key = some value) :
      ∃ other, (ofList pairs).get? key = some other ∧ related value other := by
    obtain ⟨⟨name, other⟩, found, same, holds⟩ :=
      exists_of_forall₂ each ((table.mem_entries_iff key value).mpr held)
    cases same
    exact ⟨other, get?_insertAll_of_mem empty distinct found, holds⟩
  refine ⟨fun key => ⟨fun found => ?_, fun found => ?_⟩, ?_⟩
  · obtain ⟨value, held⟩ := (mem_keys_iff table key).mp found
    obtain ⟨other, there, -⟩ := partner held
    exact (mem_keys_iff _ key).mpr ⟨other, there⟩
  · obtain ⟨other, there⟩ := (mem_keys_iff _ key).mp found
    by_contra absent
    rw [← names] at absent
    cases there.symm.trans ((get?_insertAll_of_not_mem empty absent).trans (get?_empty key))
  · intro key value other held there
    obtain ⟨partner, found, holds⟩ := partner held
    cases there.symm.trans found
    exact holds

end OfList

end ScriptMachine.Table
