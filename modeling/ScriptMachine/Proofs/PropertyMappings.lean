import ScriptMachine.Proofs.PropertyHistories
import ScriptMachine.Proofs.MemberForms

/-! Tables of properties and their deep mappings. Loading the mapping makes the table anew exactly if no
property has the name of an accessor's key. -/

namespace ScriptMachine

open Store

/-- A property has an accessor where another one has it, and tags under the same keys. -/
structure Property.Outlines (property twin : Property) : Prop where
  getter : twin.getter.isSome = property.getter.isSome
  setter : twin.setter.isSome = property.setter.isSome
  tags : ∀ key, key ∈ twin.tags.keys ↔ key ∈ property.tags.keys

namespace StoreM

theorem propertyUpdate_of_accessorKey {key : String} {named : Bool × String}
    (names : accessorKey? key = some named) (held : Option Ref) (value : Value) :
    propertyUpdate held key value = do return .accessor named.2 named.1 (← accessor value) := by
  simp only [propertyUpdate, names]

theorem run_declare_accessorKey {key : String} {named : Bool × String}
    (names : accessorKey? key = some named) (held : Option Ref) (table : Ref) (handle : Handle)
    (ref : Ref) (store : Store) :
    ∃ fault, (declare held .property table key (.map handle ref)).run store = .error fault store := by
  unfold declare
  rw [propertyUpdate_of_accessorKey names]
  by_cases empty : key.isEmpty = true
  · exact ⟨_, by rw [if_pos empty]; rfl⟩
  · exact ⟨_, by rw [if_neg empty]; rfl⟩

theorem run_declareAll_of_refused {held : Option Ref} {kind : MemberKind} {table : Ref}
    {list : List (String × Value)} {entry : String × Value} (member : entry ∈ list)
    (refused : ∀ store, ∃ fault, (declare held kind table entry.1 entry.2).run store = .error fault store)
    (store : Store) : ∃ fault later, (declareAll held kind table list).run store = .error fault later := by
  induction list generalizing store with
  | nil => cases member
  | cons first rest ih =>
    rw [declareAll, EStateM.run_bind]
    cases ran : (declare held kind table first.1 first.2).run store with
    | error fault later => exact ⟨fault, later, rfl⟩
    | ok value middle =>
      rcases List.mem_cons.mp member with rfl | later
      · obtain ⟨fault, failed⟩ := refused store
        cases ran.symm.trans failed
      · exact ih later middle

theorem run_membersFrom_accessorKey {form : Table Value} {name : String} {handle : Handle} {ref : Ref}
    (listed : form.get? name = some (.map handle ref)) {named : Bool × String}
    (names : accessorKey? name = some named) (store : Store) :
    ∃ fault later, (membersFrom .property form).run store = .error fault later := by
  let table := store.cells.size
  let start : Store := { store with cells := store.cells.push (.members .property ∅) }
  have refused := run_declareAll_of_refused ((form.mem_entries_iff name _).mpr listed)
    (run_declare_accessorKey names none table handle ref)
  obtain ⟨fault, later, failed⟩ := refused start
  refine ⟨fault, later, ?_⟩
  rw [membersFrom, EStateM.run_bind]
  change ((declareAll none .property table form.entries >>= fun _ => pure table : StoreM Ref).run start) = _
  rw [EStateM.run_bind, failed]

end StoreM

namespace PropertyHistory

open StoreM

variable {given : Ref → Prop} {store : Store}

/-- The deep mapping of a table of named properties with accessors can be made. It can be loaded exactly if
none of the names is the key of an accessor, and then gives a table with the same names, accessors and tag
keys. -/
theorem properties_survive_mapping_iff (history : PropertyHistory given store) {table : Ref}
    {members : Table Ref} (found : store.cells[table]? = some (.members .property members))
    (grounded : store.Grounded (.members .property table))
    (named : ∀ name ref, members.get? name = some ref → name ≠ "")
    (furnished : ∀ name ref, members.get? name = some ref → (store.property ref).isEmpty = false) :
    ∃ form mapped, (membersMapping true .property table).run store = .ok form mapped ∧
      ((∀ name ref, members.get? name = some ref → accessorKey? name = none) →
        ∃ copied later, (membersFrom .property form).run mapped = .ok copied later ∧
          Table.Agree (fun ref twin => (store.property ref).Outlines (later.property twin)) members
            (later.members copied)) ∧
      ((∃ name ref, members.get? name = some ref ∧ accessorKey? name ≠ none) →
        ∃ fault later, (membersFrom .property form).run mapped = .error fault later) := by
  have indifferent : Tolerant fun _ => True :=
    ⟨fun _ _ _ => trivial, fun _ _ _ => trivial, fun _ _ _ => trivial⟩
  obtain ⟨form, mapped, run, -, -, described⟩ :=
    (builds_membersMapping indifferent found grounded).run (.refl store) trivial
  have view : store.members table = members := Store.members_eq found
  refine ⟨form, mapped, run, fun plain => ?_, ?_⟩
  · have each (name : String) (ref : Ref) (there : members.get? name = some ref) :
        ∃ cell, store.cells[ref]? = some cell ∧ Declarable .property name cell := by
      obtain ⟨property, cell, -⟩ := history.furnished.listed table name ref ⟨members, found, there⟩
      have known := history.furnished.serves ref property cell
      have kept := furnished name ref there
      rw [Store.property, cell] at kept
      exact ⟨_, cell, .property (named name ref there) (plain name ref there) known.getter known.setter kept⟩
    obtain ⟨_, _, copied, later, twins, ran, loaded, kept, -, there, agree⟩ :=
      members_copied found grounded each
    cases run.symm.trans ran
    refine ⟨copied, later, loaded, ?_⟩
    simp only [Store.members, there]
    refine ⟨agree.keys, fun name ref twin listed other => ?_⟩
    obtain ⟨-, cell, contents, before, after, copy⟩ := agree.values name ref twin listed other
    obtain ⟨property, same, -⟩ := history.furnished.listed table name ref ⟨members, found, listed⟩
    cases before.symm.trans same
    cases copy with
    | property getter setter tags =>
      have inside := grounded.of_holds (.listed .property name (view ▸ listed))
      have read : store.property ref = property := Store.property_eq before
      have copies := tags.since fun tag value there => inside.of_holds (.propertyTag tag (read ▸ there))
      simp only [Store.property, before, after]
      exact ⟨(isSome_eq_of_optionRel getter).symm, (isSome_eq_of_optionRel setter).symm,
        fun key => (copies.keys key).symm⟩
  · rintro ⟨name, ref, there, key⟩
    obtain ⟨value, listed, cell, contents, -, shape, -⟩ := described.partner there
    obtain ⟨handle, place, _, rfl, -⟩ := shape
    obtain ⟨accessor, names⟩ := Option.ne_none_iff_exists'.mp key
    exact run_membersFrom_accessorKey listed names mapped

theorem assigned_grounded : assigned.Grounded (.members .property 0) := by
  have listed : assigned.Grounded (.member .property 1) := (firm_getter rfl).grounded
  refine .of_each (.members _ _ rfl) fun held holds => ?_
  cases holds with
  | contains inside => cases inside
  | listed kind name found =>
    rw [(Table.eq_of_get?_single found).2]
    exact listed

theorem properties_survive_mapping_iff_assigned :
    ∃ given, PropertyHistory given assigned ∧ assigned.Grounded (.members .property 0) ∧
      ∃ form mapped copied later,
        (membersMapping true .property 0).run assigned = .ok form mapped ∧
        (membersFrom .property form).run mapped = .ok copied later ∧
        Table.Agree (fun ref twin => (assigned.property ref).Outlines (later.property twin))
          (Table.empty.insert "x" 1) (later.members copied) := by
  obtain ⟨given, history, -⟩ := assigned_history
  obtain ⟨form, mapped, run, loads, -⟩ := history.properties_survive_mapping_iff rfl assigned_grounded
    (fun name ref found => by rw [(Table.eq_of_get?_single found).1]; decide)
    (fun name ref found => by rw [(Table.eq_of_get?_single found).2]; rfl)
  obtain ⟨copied, later, loaded, agree⟩ := loads fun name ref found => by
    rw [(Table.eq_of_get?_single found).1]
    decide +kernel
  exact ⟨given, history, assigned_grounded, form, mapped, copied, later, run, loaded, agree⟩

def getterCall : PropertyOperation :=
  .property { arguments := #[.host 0 ⟨"g", "this", false⟩, .undefined], keywords := ∅, receiver := none }

/-- A call that stores a property under a keyword that is the key of an accessor. -/
def prefixedCall : PropertyOperation :=
  .properties { arguments := #[], keywords := Table.empty.insert "get_x" (.member .property 0), receiver := none }

/-- A property with a getter, and a table that lists it under the key of an accessor. -/
def prefixed : Store where
  cells := #[.property { getter := some (.host 0 ⟨"g", "this", false⟩) },
    .members .property (Table.empty.insert "get_x" 0)]

theorem prefixed_history : ∃ given, PropertyHistory given prefixed := by
  let made : Store := { cells := #[.property { getter := some (.host 0 ⟨"g", "this", false⟩) }] }
  have start : PropertyHistory (fun _ => False) {} := by
    refine .start (fun _ _ found => by simp at found) ?_
    rintro _ _ _ ⟨_, found, -⟩
    simp at found
  have called : PropertyHistory (getterCall.Given {} fun _ => False) made :=
    start.act getterCall fun value member => by
      rw [show getterCall.values = [.host 0 ⟨"g", "this", false⟩, .undefined] from rfl] at member
      simp only [List.mem_cons, List.not_mem_nil, or_false] at member
      rcases member with rfl | rfl <;> exact .of_alone trivial
  have stored : PropertyHistory (prefixedCall.Given made (getterCall.Given {} fun _ => False)) prefixed :=
    called.act prefixedCall fun value member => by
      rw [show prefixedCall.values = [.member .property 0] from rfl, List.mem_singleton] at member
      subst member
      exact firm_getter rfl
  exact ⟨_, stored⟩

/-- The deep mapping of that table can be made, and not loaded. -/
theorem prefixed_mapping_is_refused :
    (∃ given, PropertyHistory given prefixed) ∧ prefixed.Grounded (.members .property 1) ∧
      prefixed.members 1 = Table.empty.insert "get_x" 0 ∧ (prefixed.property 0).isEmpty = false ∧
      ∃ form mapped fault later, (membersMapping true .property 1).run prefixed = .ok form mapped ∧
        (membersFrom .property form).run mapped = .error fault later := by
  have grounded : prefixed.Grounded (.members .property 1) := by
    refine .of_each (.members _ _ rfl) fun held holds => ?_
    cases holds with
    | contains inside => cases inside
    | listed kind name found =>
      rw [(Table.eq_of_get?_single found).2]
      exact (firm_getter rfl).grounded
  have listed : (Table.empty.insert "get_x" (Value.map .writable 2)).get? "get_x" = some (.map .writable 2) := by
    simp
  have names : accessorKey? "get_x" = some (false, "x") := by decide +kernel
  let mapped : Store := { prefixed with
    cells := prefixed.cells.push (.map (Table.empty.insert "get" (.host 0 ⟨"g", "this", false⟩))) }
  obtain ⟨fault, later, failed⟩ := run_membersFrom_accessorKey listed names mapped
  exact ⟨prefixed_history, grounded, rfl, rfl, _, mapped, fault, later, rfl, failed⟩

end PropertyHistory

end ScriptMachine
