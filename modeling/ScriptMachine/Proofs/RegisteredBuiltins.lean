import ScriptMachine.Builtins
import Mathlib.Data.List.Nodup

/-! The table of builtins as embedding programs add to it. Code names a builtin by one byte and may have been
compiled at any time. So the table and the index of its names have to agree after any calls, those that are
turned away included, and a byte that was given out has to denote the same builtin ever after. -/

namespace ScriptMachine

namespace Registry

variable {α : Type} {registry : Registry α} {entry : RegistryEntry α}

def names (registry : Registry α) : List String := registry.entries.toList.map RegistryEntry.name

def extended (registry : Registry α) (entry : RegistryEntry α) : Registry α :=
  ⟨registry.entries.push entry, registry.byName.insert entry.name (UInt8.ofNat registry.size)⟩

/-- The registry after calls to register one builtin each. A call that is turned away leaves it to the next. -/
def afterCalls (registry : Registry α) (calls : List (RegistryEntry α)) : Registry α :=
  calls.foldl (fun registry entry => (registry.register entry).1) registry

@[simp] theorem size_extended (registry : Registry α) (entry : RegistryEntry α) :
    (registry.extended entry).size = registry.size + 1 :=
  Array.size_push entry

@[simp] theorem names_extended (registry : Registry α) (entry : RegistryEntry α) :
    (registry.extended entry).names = registry.names ++ [entry.name] := by
  simp [names, extended]

theorem entry?_eq (registry : Registry α) (index : Nat) :
    registry.entry? index = registry.entries.toList[index]? :=
  Array.getElem?_toList.symm

theorem entry?_extended (registry : Registry α) (entry : RegistryEntry α) (index : Nat) :
    entry? (registry.extended entry) index =
      if index = registry.size then some entry else registry.entry? index :=
  Array.getElem?_push

theorem toNat_ofNat_size (room : registry.size < capacity) :
    (UInt8.ofNat registry.size).toNat = registry.size :=
  UInt8.toNat_ofNat_of_lt' room

theorem indexOf?_extended (room : registry.size < capacity) (entry : RegistryEntry α) (name : String) :
    (registry.extended entry).indexOf? name =
      if entry.name = name then some registry.size else registry.indexOf? name := by
  simp only [indexOf?, extended, Table.get?_insert]
  split
  · exact congrArg some (toNat_ofNat_size room)
  · rfl

@[simp] theorem afterCalls_cons (registry : Registry α) (call : RegistryEntry α)
    (calls : List (RegistryEntry α)) :
    registry.afterCalls (call :: calls) = (registry.register call).1.afterCalls calls := rfl

/-- All that a call can do. -/
theorem register_cases (registry : Registry α) (entry : RegistryEntry α) :
    (registry.byName.contains entry.name = true ∧
      registry.register entry = (registry, .error (.taken entry.name))) ∨
    (registry.byName.contains entry.name = false ∧ capacity ≤ registry.size ∧
      registry.register entry = (registry, .error .full)) ∨
    (registry.byName.contains entry.name = false ∧ registry.size < capacity ∧
      registry.register entry = (registry.extended entry, .ok (UInt8.ofNat registry.size))) := by
  unfold register
  split
  next taken => exact .inl ⟨taken, rfl⟩
  next free =>
    have free := Bool.eq_false_iff.mpr free
    split
    next room => exact .inr (.inr ⟨free, room, rfl⟩)
    next full => exact .inr (.inl ⟨free, Nat.le_of_not_lt full, rfl⟩)

theorem register_appends (registry : Registry α) (entry : RegistryEntry α) :
    registry.entries.toList <+: (registry.register entry).1.entries.toList := by
  obtain ⟨-, done⟩ | ⟨-, -, done⟩ | ⟨-, -, done⟩ := registry.register_cases entry
  · simp only [done, List.prefix_refl]
  · simp only [done, List.prefix_refl]
  · simp only [done, extended, Array.toList_push, List.prefix_append]

/-- Calls only ever append. -/
theorem afterCalls_appends (registry : Registry α) (calls : List (RegistryEntry α)) :
    registry.entries.toList <+: (registry.afterCalls calls).entries.toList := by
  induction calls generalizing registry with
  | nil => exact List.prefix_refl _
  | cons call calls ih => exact (registry.register_appends call).trans (ih _)

/-- An index in use denotes the same builtin after any calls. -/
theorem entry?_afterCalls {index : Nat} (found : registry.entry? index = some entry)
    (calls : List (RegistryEntry α)) : entry? (registry.afterCalls calls) index = some entry := by
  obtain ⟨appended, grown⟩ := registry.afterCalls_appends calls
  rw [entry?_eq] at found ⊢
  rw [← grown, List.getElem?_append_left (List.getElem?_eq_some_iff.mp found).1]
  exact found

/-- A byte can tell the builtins apart, and the index of the names finds a name where the table has it. -/
structure Consistent (registry : Registry α) : Prop where
  bounded : registry.size ≤ capacity
  indexed : ∀ name index, registry.indexOf? name = some index ↔
    ∃ entry, registry.entry? index = some entry ∧ entry.name = name

theorem consistent_empty : ({} : Registry α).Consistent where
  bounded := Nat.zero_le capacity
  indexed name index := by
    constructor
    · intro found
      cases (congrArg (Option.map UInt8.toNat) (Table.get?_empty name)).symm.trans found
    · rintro ⟨entry, found, -⟩
      cases found

theorem mem_names_iff (registry : Registry α) (name : String) :
    name ∈ registry.names ↔ ∃ index entry, registry.entry? index = some entry ∧ entry.name = name := by
  simp only [List.mem_iff_getElem?, names, List.getElem?_map, Option.map_eq_some_iff, entry?_eq]

namespace Consistent

theorem nodup_names (consistent : registry.Consistent) : registry.names.Nodup := by
  rw [List.nodup_iff_getElem?_ne_getElem?]
  intro first second less inside same
  have found {index : Nat} {name : String} (there : registry.names[index]? = some name) :
      registry.indexOf? name = some index := by
    rw [names, List.getElem?_map, ← entry?_eq] at there
    exact (consistent.indexed name index).mpr (Option.map_eq_some_iff.mp there)
  have last := List.getElem?_eq_getElem inside
  cases (found (same.trans last)).symm.trans (found last)
  exact Nat.lt_irrefl _ less

theorem contains_iff (consistent : registry.Consistent) (name : String) :
    registry.byName.contains name = true ↔ name ∈ registry.names := by
  have indexed : registry.byName.contains name = (registry.indexOf? name).isSome := by
    rw [indexOf?, Option.isSome_map]
    exact Std.ExtTreeMap.contains_eq_isSome_getElem?
  rw [indexed, Option.isSome_iff_exists, mem_names_iff]
  exact exists_congr (consistent.indexed name)

theorem register_taken (consistent : registry.Consistent) (taken : entry.name ∈ registry.names) :
    registry.register entry = (registry, .error (.taken entry.name)) := by
  have held := (consistent.contains_iff _).mpr taken
  obtain ⟨-, done⟩ | ⟨free, -⟩ | ⟨free, -⟩ := registry.register_cases entry
  · exact done
  · cases held.symm.trans free
  · cases held.symm.trans free

theorem register_full (consistent : registry.Consistent) (new : entry.name ∉ registry.names)
    (full : registry.size = capacity) : registry.register entry = (registry, .error .full) := by
  obtain ⟨taken, -⟩ | ⟨-, -, done⟩ | ⟨-, room, -⟩ := registry.register_cases entry
  · exact absurd ((consistent.contains_iff _).mp taken) new
  · exact done
  · exact absurd full (Nat.ne_of_lt room)

theorem register_new (consistent : registry.Consistent) (new : entry.name ∉ registry.names)
    (room : registry.size < capacity) :
    registry.register entry = (registry.extended entry, .ok (UInt8.ofNat registry.size)) := by
  obtain ⟨taken, -⟩ | ⟨-, full, -⟩ | ⟨-, -, done⟩ := registry.register_cases entry
  · exact absurd ((consistent.contains_iff _).mp taken) new
  · exact absurd room (Nat.not_lt.mpr full)
  · exact done

theorem extended (consistent : registry.Consistent) (new : entry.name ∉ registry.names)
    (room : registry.size < capacity) : (registry.extended entry).Consistent where
  bounded := by
    rw [size_extended]
    exact room
  indexed name index := by
    rw [indexOf?_extended room, entry?_extended]
    by_cases last : index = registry.size
    · have vacant : registry.indexOf? name ≠ some index := by
        intro found
        obtain ⟨other, there, -⟩ := (consistent.indexed name index).mp found
        rw [last, entry?, size, Array.getElem?_size] at there
        cases there
      rw [if_pos last]
      split
      next same => simp [last, same]
      next differs => simp [vacant, differs]
    · rw [if_neg last, ← consistent.indexed]
      split
      next same =>
        have absent : registry.indexOf? name ≠ some index := by
          intro found
          exact new (same ▸ (mem_names_iff _ _).mpr ⟨index, (consistent.indexed name index).mp found⟩)
        simp [absent, Ne.symm last]
      next => rfl

/-- Whatever a call does, the table and the index of its names still agree. -/
theorem register (consistent : registry.Consistent) (entry : RegistryEntry α) :
    (registry.register entry).1.Consistent := by
  obtain ⟨-, done⟩ | ⟨-, -, done⟩ | ⟨free, room, done⟩ := registry.register_cases entry
  · rwa [done]
  · rwa [done]
  · rw [done]
    refine consistent.extended (fun taken => ?_) room
    cases free.symm.trans ((consistent.contains_iff _).mpr taken)

theorem afterCalls (consistent : registry.Consistent) (calls : List (RegistryEntry α)) :
    (registry.afterCalls calls).Consistent := by
  induction calls generalizing registry with
  | nil => exact consistent
  | cons call calls ih => exact ih (consistent.register call)

/-- Builtins with names of their own get the next indices, in the order of the calls, while there is room. -/
theorem entries_afterCalls (consistent : registry.Consistent) (calls : List (RegistryEntry α))
    (distinct : (registry.names ++ calls.map RegistryEntry.name).Nodup)
    (fits : registry.size + calls.length ≤ capacity) :
    (registry.afterCalls calls).entries.toList = registry.entries.toList ++ calls := by
  induction calls generalizing registry with
  | nil => exact (List.append_nil _).symm
  | cons call calls ih =>
    rw [List.length_cons] at fits
    rw [List.map_cons] at distinct
    have new : call.name ∉ registry.names := fun taken =>
      (List.nodup_append.mp distinct).2.2 _ taken _ List.mem_cons_self rfl
    have room : registry.size < capacity := by omega
    rw [afterCalls_cons, consistent.register_new new room, ih (consistent.extended new room)]
    · rw [Registry.extended, Array.toList_push, List.append_assoc, List.singleton_append]
    · rw [names_extended, List.append_assoc]
      exact distinct
    · rw [size_extended]
      omega

end Consistent

theorem registerAll_refused {reason : Rejection} (done : registry.register entry = (registry, .error reason))
    (rest : List (RegistryEntry α)) : registry.registerAll (entry :: rest) = (registry, .error reason) := by
  rw [registerAll, done]

theorem registerAll_accepted {after : Registry α} {index : UInt8}
    (done : registry.register entry = (after, .ok index)) (rest : List (RegistryEntry α)) :
    registry.registerAll (entry :: rest) =
      ((after.registerAll rest).1, (after.registerAll rest).2.map (·.or (some index.toNat))) := by
  rw [registerAll, done]

/-- Registering several builtins is registering one after the other, up to the first that is turned away. -/
theorem registerAll_cases (registry : Registry α) (entries : List (RegistryEntry α)) :
    (∃ last, registry.registerAll entries = (registry.afterCalls entries, .ok last)) ∨
    ∃ accepted refused rest reason, entries = accepted ++ refused :: rest ∧
      (registry.afterCalls accepted).register refused = (registry.afterCalls accepted, .error reason) ∧
      registry.registerAll entries = (registry.afterCalls accepted, .error reason) := by
  induction entries generalizing registry with
  | nil => exact .inl ⟨none, rfl⟩
  | cons entry entries ih =>
    obtain ⟨-, done⟩ | ⟨-, -, done⟩ | ⟨-, -, done⟩ := registry.register_cases entry
    · exact .inr ⟨[], entry, entries, _, rfl, done, registerAll_refused done entries⟩
    · exact .inr ⟨[], entry, entries, _, rfl, done, registerAll_refused done entries⟩
    · have further := registerAll_accepted done entries
      have left (calls : List (RegistryEntry α)) :
          registry.afterCalls (entry :: calls) = (registry.extended entry).afterCalls calls := by
        rw [afterCalls_cons, done]
      obtain ⟨last, all⟩ | ⟨accepted, refused, rest, reason, rfl, turned, all⟩ :=
        ih (registry.extended entry)
      · rw [all] at further
        exact .inl ⟨_, (left entries).symm ▸ further⟩
      · rw [all] at further
        exact .inr ⟨entry :: accepted, refused, rest, reason, rfl, left accepted ▸ turned,
          left accepted ▸ further⟩

/-- Whatever was registered and turned away, the table holds at most 256 builtins, no two with one name, and
its index finds a name exactly where the table has it. An index in use denotes the same builtin after any later
calls. A call with a name that is taken or on a full table is turned away and changes nothing; any other is
given the next index, which denotes its builtin from then on. -/
theorem registration_keeps_bijection (calls : List (RegistryEntry α)) :
    let registry := ({} : Registry α).afterCalls calls
    registry.size ≤ 256 ∧ registry.names.Nodup ∧
    (∀ name index, registry.indexOf? name = some index ↔
      ∃ entry, registry.entry? index = some entry ∧ entry.name = name) ∧
    (∀ index entry, registry.entry? index = some entry →
      ∀ later, entry? (registry.afterCalls later) index = some entry) ∧
    ∀ entry,
      (entry.name ∈ registry.names →
        registry.register entry = (registry, .error (.taken entry.name))) ∧
      (entry.name ∉ registry.names → registry.size = 256 →
        registry.register entry = (registry, .error .full)) ∧
      (entry.name ∉ registry.names → registry.size < 256 →
        ∃ index after, registry.register entry = (after, .ok index) ∧ index.toNat = registry.size ∧
          after.names = registry.names ++ [entry.name] ∧
          ∀ later, entry? (after.afterCalls later) index.toNat = some entry) := by
  intro registry
  have consistent : registry.Consistent := consistent_empty.afterCalls calls
  refine ⟨consistent.bounded, consistent.nodup_names, consistent.indexed,
    fun index entry found => entry?_afterCalls found, fun entry =>
      ⟨consistent.register_taken, consistent.register_full, fun new room => ?_⟩⟩
  have index := toNat_ofNat_size room
  refine ⟨_, _, consistent.register_new new room, index, registry.names_extended entry, ?_⟩
  apply entry?_afterCalls
  rw [index, entry?_extended, if_pos rfl]

/-- A name of so many letters. -/
def letters (length : Nat) : String := String.ofList (List.replicate length 'x')

/-- As many builtins as there are bytes, with names of every length. -/
def manyCalls : List (RegistryEntry Nat) :=
  (List.range 256).map fun length => ⟨letters length, length, length == 255⟩

def fullTable : Registry Nat := ({} : Registry Nat).afterCalls manyCalls

def shortTable : Registry Nat := ({} : Registry Nat).afterCalls [⟨"log", 0, false⟩, ⟨"log", 1, true⟩]

theorem length_manyCalls : manyCalls.length = 256 := by
  rw [manyCalls, List.length_map, List.length_range]

theorem entries_fullTable : fullTable.entries.toList = manyCalls := by
  have distinct : (manyCalls.map RegistryEntry.name).Nodup := by
    rw [manyCalls, List.map_map]
    refine List.nodup_range.map fun first second same => ?_
    simpa [letters] using congrArg String.length same
  rw [fullTable, consistent_empty.entries_afterCalls manyCalls distinct]
  · exact List.nil_append _
  · rw [length_manyCalls]
    exact Nat.le_refl _

/-- The last byte is given out, and goes on denoting its builtin after a call that finds no room. A call that
was turned away takes no index from the next. -/
theorem registration_keeps_bijection_lastByte :
    fullTable.size = 256 ∧ fullTable.indexOf? "xx" = some 2 ∧
    fullTable.register ⟨"xx", 0, false⟩ = (fullTable, .error (.taken "xx")) ∧
    fullTable.register ⟨"y", 0, false⟩ = (fullTable, .error .full) ∧
    entry? (fullTable.afterCalls [⟨"y", 0, false⟩]) 255 = some ⟨letters 255, 255, true⟩ ∧
    ∃ index after, shortTable.register ⟨"send", 2, true⟩ = (after, .ok index) ∧ index.toNat = 1 ∧
      entry? (after.afterCalls [⟨"send", 3, false⟩, ⟨"log", 4, true⟩]) index.toNat =
        some ⟨"send", 2, true⟩ := by
  have size : fullTable.size = 256 := by
    rw [Registry.size, ← Array.length_toList, entries_fullTable, length_manyCalls]
  have found {index : Nat} (inside : index < 256) :
      fullTable.entry? index = some ⟨letters index, index, index == 255⟩ := by
    rw [entry?_eq, entries_fullTable, manyCalls, List.getElem?_map, List.getElem?_range inside,
      Option.map_some]
  have taken : "xx" ∈ fullTable.names :=
    (mem_names_iff fullTable "xx").mpr ⟨2, _, found (by decide), rfl⟩
  have new : "y" ∉ fullTable.names := by
    rw [names, entries_fullTable]
    decide +kernel
  obtain ⟨-, -, indexed, kept, calls⟩ := registration_keeps_bijection manyCalls
  obtain ⟨-, -, -, -, further⟩ :=
    registration_keeps_bijection (α := Nat) [⟨"log", 0, false⟩, ⟨"log", 1, true⟩]
  refine ⟨size, (indexed "xx" 2).mpr ⟨_, found (by decide), rfl⟩, (calls ⟨"xx", 0, false⟩).1 taken,
    (calls ⟨"y", 0, false⟩).2.1 new size, kept 255 _ (found (by decide)) _, ?_⟩
  obtain ⟨index, after, done, next, -, stays⟩ :=
    (further ⟨"send", 2, true⟩).2.2 (by decide +kernel) (by decide +kernel)
  exact ⟨index, after, done, next, stays _⟩

end Registry

namespace Builtin

theorem registry_eq_afterCalls : registry = ({} : Registry Builtin).afterCalls standard := by
  have accepted : (({} : Registry Builtin).registerAll standard).2 = .ok (some 11) := rfl
  rw [registry]
  obtain ⟨last, all⟩ | ⟨_, _, _, reason, -, -, all⟩ := ({} : Registry Builtin).registerAll_cases standard
  · rw [all]
  · rw [all] at accepted
    cases accepted

/-- Whatever is registered besides, the standard builtins keep their indices, by which code names them. -/
theorem standard_afterCalls (calls : List (RegistryEntry Builtin)) {index : Nat}
    {entry : RegistryEntry Builtin} (listed : standard[index]? = some entry) :
    Registry.entry? (registry.afterCalls calls) index = some entry ∧
      (registry.afterCalls calls).indexOf? entry.name = some index := by
  have consistent : (registry.afterCalls calls).Consistent := by
    rw [registry_eq_afterCalls]
    exact (Registry.consistent_empty.afterCalls standard).afterCalls calls
  have found : registry.entry? index = some entry := by
    rw [Registry.entry?_eq]
    exact listed
  have kept := Registry.entry?_afterCalls found calls
  exact ⟨kept, (consistent.indexed _ _).mpr ⟨entry, kept, rfl⟩⟩

end Builtin

end ScriptMachine
