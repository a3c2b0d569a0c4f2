import ScriptMachine.Proofs.CopyLogic
import ScriptMachine.Proofs.Similarity
import Mathlib

/-! A deep copy shares no container with its source, and is equal to it where values are equal to
themselves. Both follow from the copies noted on the way: they relate what the copy reaches to what
the source reaches. -/

namespace ScriptMachine

open Store

/-- A copy that has come to its end: the cells of the source store are as they were, and every note
is of a finished copy in new cells. -/
structure Copying.Completed (source : Store) (state : Copying) : Prop where
  kept : ∀ ref < source.cells.size, state.store.cells[ref]? = source.cells[ref]?
  made : ∀ ref copied : Ref, state.copies[ref]? = some copied →
    source.cells.size ≤ copied ∧ Copied source state source.cells.size ref copied

namespace Copying.Completed

variable {source : Store} {state : Copying} {value copied held : Value}

theorem of_grows (grows : Grows source { store := source } state) : state.Completed source :=
  ⟨grows.kept, fun ref copied found => grows.made ref copied found Std.HashMap.getElem?_empty⟩

theorem contents (complete : state.Completed source) {ref copied : Ref}
    (found : state.copies[ref]? = some copied) {original : Cell}
    (cell : source.cells[ref]? = some original) (plain : ∀ object, original ≠ .object object) :
    ∃ contents, state.store.cells[copied]? = some contents ∧
      Cell.Image state.copies original contents := by
  cases (complete.made ref copied found).2 with
  | cell same made image =>
    cases cell.symm.trans same
    exact ⟨_, made, image⟩
  | object same => exact absurd (Option.some.inj (cell.symm.trans same)) (plain _)

section Views

variable {ref copied : Ref} (complete : state.Completed source)
  (found : state.copies[ref]? = some copied)

include complete found

theorem elements_image {elements : Array Value} (cell : source.cells[ref]? = some (.array elements)) :
    List.Forall₂ (Value.Image state.copies) elements.toList
      (state.store.elements copied).toList := by
  obtain ⟨contents, made, image⟩ := complete.contents found cell (by simp)
  cases image with
  | array each => simpa only [Store.elements, made] using each

theorem entries_image {entries : Table Value} (cell : source.cells[ref]? = some (.map entries)) :
    Table.Agree (Value.Image state.copies) entries (state.store.entries copied) := by
  obtain ⟨contents, made, image⟩ := complete.contents found cell (by simp)
  cases image with
  | map each => simpa only [Store.entries, made] using each

theorem entry_image {entry : Entry} (cell : source.cells[ref]? = some (.entry entry)) :
    Value.Image state.copies entry.value (state.store.entry copied).value ∧
      Table.Agree (Value.Image state.copies) entry.tags (state.store.entry copied).tags := by
  obtain ⟨contents, made, image⟩ := complete.contents found cell (by simp)
  cases image with
  | entry value tags => simpa only [Store.entry, made] using ⟨value, tags⟩

theorem property_image {property : Property}
    (cell : source.cells[ref]? = some (.property property)) :
    Option.Rel (Value.Image state.copies) property.getter (state.store.property copied).getter ∧
      Option.Rel (Value.Image state.copies) property.setter (state.store.property copied).setter ∧
      Table.Agree (Value.Image state.copies) property.tags (state.store.property copied).tags := by
  obtain ⟨contents, made, image⟩ := complete.contents found cell (by simp)
  cases image with
  | property getter setter tags => simpa only [Store.property, made] using ⟨getter, setter, tags⟩

theorem members_image {kind : MemberKind} {members : Table Ref}
    (cell : source.cells[ref]? = some (.members kind members)) :
    Table.Agree (fun (ref copied : Ref) => state.copies[ref]? = some copied) members
      (state.store.members copied) := by
  obtain ⟨contents, made, image⟩ := complete.contents found cell (by simp)
  cases image with
  | members _ each => simpa only [Store.members, made] using each

theorem object_image {object : Object} {values : Table Value}
    (cell : source.cells[ref]? = some (.object object))
    (storage : source.cells[object.values]? = some (.map values)) :
    (state.store.object copied).type = object.type ∧
      source.cells.size ≤ (state.store.object copied).values ∧
      Table.Agree (Value.Image state.copies) values (state.store.valuesOf copied) := by
  cases (complete.made ref copied found).2 with
  | cell same made image =>
    cases cell.symm.trans same
    cases image
  | object same held made fresh filled each =>
    cases cell.symm.trans same
    cases storage.symm.trans held
    simp only [Store.valuesOf, Store.entries, Store.object, made, filled]
    exact ⟨trivial, fresh, each⟩

end Views

/-- Whatever a copy holds is the copy of something that its source holds. -/
theorem holds_image (complete : state.Completed source) (fits : source.Fits value)
    (image : Value.Image state.copies value copied) (holds : state.store.Holds copied held) :
    ∃ origin, source.Holds value origin ∧ Value.Image state.copies origin held := by
  cases image with
  | array handle found =>
    cases holds with
    | contains inside =>
      cases inside with
      | element _ member =>
        have each := complete.elements_image found fits.array_cell
        obtain ⟨origin, there, image⟩ := Table.exists_of_forall₂ (List.Forall₂.flip each)
          (by simpa using member)
        exact ⟨origin, .contains (.element handle (by simpa using there)), image⟩
  | map handle found =>
    cases holds with
    | contains inside =>
      cases inside with
      | entry _ key there =>
        obtain ⟨origin, here, image⟩ := (complete.entries_image found fits.map_cell).origin there
        exact ⟨origin, .contains (.entry handle key here), image⟩
  | object found =>
    cases holds with
    | contains inside =>
      cases inside with
      | field key there =>
        have each := (complete.object_image found fits.object_cell fits.storage_cell).2.2
        obtain ⟨origin, here, image⟩ := each.origin there
        exact ⟨origin, .contains (.field key here), image⟩
  | member kind found =>
    cases holds with
    | contains inside => cases inside
    | declared plain =>
      exact ⟨_, .declared plain _, (complete.entry_image found (fits.entry_cell plain)).1⟩
    | tag plain key there =>
      have tags := (complete.entry_image found (fits.entry_cell plain)).2
      obtain ⟨origin, here, image⟩ := tags.origin there
      exact ⟨origin, .tag plain key here, image⟩
    | getter there =>
      have getter := (complete.property_image found fits.property_cell).1
      obtain ⟨origin, here, image⟩ := exists_of_optionRel getter there
      exact ⟨origin, .getter here, image⟩
    | setter there =>
      have setter := (complete.property_image found fits.property_cell).2.1
      obtain ⟨origin, here, image⟩ := exists_of_optionRel setter there
      exact ⟨origin, .setter here, image⟩
    | propertyTag key there =>
      have tags := (complete.property_image found fits.property_cell).2.2
      obtain ⟨origin, here, image⟩ := tags.origin there
      exact ⟨origin, .propertyTag key here, image⟩
  | members kind found =>
    cases holds with
    | contains inside => cases inside
    | listed _ name there =>
      obtain ⟨origin, here, noted⟩ := (complete.members_image found fits.members_cell).origin there
      exact ⟨_, .listed kind name here, .member kind noted⟩
  | error id fresh inside =>
    cases holds with
    | contains inside => cases inside
    | payload => exact ⟨_, .payload _ _, inside⟩
  | function ref fresh =>
    cases holds with
    | contains inside => cases inside
  | bound id fresh hold receiver inside =>
    cases holds with
    | contains inside => cases inside
    | callee => exact ⟨_, .callee _ _ _ _, inside⟩
  | same shared =>
    cases holds with
    | contains inside => cases inside <;> cases shared
    | _ => cases shared

/-- Whatever a copy reaches is the copy of something that its source reaches. -/
theorem reaches_image (complete : state.Completed source) (grounded : source.Grounded value)
    (image : Value.Image state.copies value copied) (reached : state.store.Reaches copied held) :
    ∃ origin, source.Reaches value origin ∧ Value.Image state.copies origin held := by
  induction reached with
  | refl => exact ⟨value, .refl, image⟩
  | tail _ holds ih =>
    obtain ⟨origin, before, image⟩ := ih
    obtain ⟨next, step, image⟩ := complete.holds_image (grounded origin before) image holds
    exact ⟨next, before.tail step, image⟩

theorem fresh_of_image (complete : state.Completed source) (fits : source.Fits value)
    (image : Value.Image state.copies value copied) {ref : Ref}
    (occupies : state.store.Occupies copied ref) : source.cells.size ≤ ref := by
  cases image with
  | array handle found =>
    cases occupies
    exact (complete.made _ _ found).1
  | map handle found =>
    cases occupies
    exact (complete.made _ _ found).1
  | object found =>
    cases occupies with
    | object => exact (complete.made _ _ found).1
    | storage => exact (complete.object_image found fits.object_cell fits.storage_cell).2.1
  | member kind found =>
    cases occupies
    exact (complete.made _ _ found).1
  | members kind found =>
    cases occupies
    exact (complete.made _ _ found).1
  | error => cases occupies
  | function => cases occupies
  | bound => cases occupies
  | same shared => cases occupies <;> cases shared

end Copying.Completed

/-- A copy comes to its end, and its result is the copy of the value. -/
theorem StoreM.copy_completes {store : Store} {value : Value} (grounded : store.Grounded value) :
    ∃ (copied : Value) (state : Copying), (copy value).run store = .ok copied state.store ∧
      state.Completed store ∧ Value.Image state.copies value copied := by
  have makes := CopyM.makes_within (store.cells.size + 1) value grounded
  have few : uncopied store.cells.size ∅ < store.cells.size + 1 :=
    Nat.lt_succ_of_le (uncopied_le_size _ _)
  obtain ⟨grows, image⟩ := makes { store } ⟨Nat.le_refl _, fun _ _ => rfl⟩ few
  exact ⟨_, _, rfl, .of_grows grows, image⟩

/-- Values that are equal to their copies provided that what they hold is. -/
def Value.Comparable : Value → Prop
  | float x => x.isNaN = false
  | error .. | function _ | bound .. | member .. | members .. => False
  | _ => True

theorem float_beq_self {x : Float} (number : x.isNaN = false) : (x == x) = true := by
  have proper : x ≠ Float.nan := by
    rw [Float.isNaN_eq_decide_eq_nan] at number
    exact of_decide_eq_false number
  exact Float.beq_iff_ne_nan_and_eq.mpr ⟨proper, proper, .inl rfl⟩

theorem Value.Matches.refl_of_shared {held : ContainerKind → Ref → Ref → Prop} {value : Value}
    (shared : value.Shared) (comparable : value.Comparable) : value.Matches held value := by
  cases value with
  | float x => exact .float (float_beq_self comparable)
  | array | map | object | member | members | error | function | bound => cases shared
  | _ => constructor

namespace Copying

variable {source : Store} {state : Copying} {value copied held twin : Value}

/-- A copy beside its original, where all that the original contains is comparable. -/
structure Beside (source : Store) (state : Copying) (copied value : Value) : Prop where
  image : Value.Image state.copies value copied
  grounded : source.Grounded value
  comparable : ∀ held, Relation.ReflTransGen source.Contains value held → held.Comparable

theorem Beside.of_contains (beside : Beside source state copied value)
    (inside : source.Contains value held) (image : Value.Image state.copies held twin) :
    Beside source state twin held := by
  refine ⟨image, beside.grounded.of_holds (.contains inside), ?_⟩
  exact fun nested reached => beside.comparable nested (.head inside reached)

namespace Completed

variable (complete : state.Completed source)

include complete

theorem found_of_found {ref : Ref} {cell : Cell} (found : source.cells[ref]? = some cell) :
    state.store.cells[ref]? = some cell := by
  rw [complete.kept ref (lt_of_getElem?_eq_some found), found]

/-- Copies and their originals are related by a relation that agrees with what they hold. -/
theorem agrees_of_beside (beside : Beside source state copied value) :
    state.store.Agrees (Beside source state) copied value := by
  have itself : value.Comparable := beside.comparable value .refl
  have fits := beside.grounded.fits
  cases beside.image with
  | @array handle ref copied found =>
    refine .array _ _ ?_
    have each := complete.elements_image found fits.array_cell
    have inside : ∀ held ∈ (source.elements ref).toList, source.Contains (.array handle ref) held :=
      fun held member => .element handle (Array.mem_toList_iff.mp member)
    show List.Forall₂ _ _ (state.store.elements ref).toList
    rw [Store.elements_eq (complete.found_of_found fits.array_cell)]
    refine List.Forall₂.flip (((List.forall₂_and_left _ _).mpr ⟨inside, each⟩).imp ?_)
    exact fun held twin both => beside.of_contains both.1 both.2
  | @map handle ref copied found =>
    refine .map _ _ ?_
    show Table.Agree _ _ (state.store.entries ref)
    rw [Store.entries_eq (complete.found_of_found fits.map_cell)]
    refine (complete.entries_image found fits.map_cell).flip fun key held twin there image => ?_
    exact beside.of_contains (.entry handle key there) image
  | @object ref copied found =>
    obtain ⟨type, -, each⟩ := complete.object_image found fits.object_cell fits.storage_cell
    have same := Store.object_eq (complete.found_of_found fits.object_cell)
    have here : state.store.valuesOf ref = source.valuesOf ref := by
      rw [Store.valuesOf, same, Store.entries_eq (complete.found_of_found fits.storage_cell)]
    refine .object ⟨type.trans (congrArg Object.type same.symm), ?_⟩
    rw [here]
    refine each.flip fun key held twin there image => ?_
    exact beside.of_contains (.field key there) image
  | same shared => exact .refl_of_shared shared itself
  | member | members | error | function | bound => cases itself

theorem equal_of_beside (beside : Beside source state copied value) :
    state.store.equal copied value = true :=
  equalVisiting_of_related (fun _ entries => .refl entries)
    (fun _ _ beside => complete.agrees_of_beside beside) beside

/-- Nothing that the source reaches is in a cell that the copy reaches. -/
theorem sameFor_of_outside (grounded : source.Grounded value)
    (image : Value.Image state.copies value copied) {later : Store}
    (outside : ∀ ref, (∀ held, state.store.Reaches copied held → ¬state.store.Occupies held ref) →
      later.cells[ref]? = state.store.cells[ref]?)
    (reached : source.Reaches value held) : source.SameFor later held := by
  intro ref occupies
  have old : ref < source.cells.size := (grounded held reached).lt occupies
  rw [outside ref, complete.kept ref old]
  intro twin reachedTwin occupiesTwin
  obtain ⟨origin, before, image⟩ := complete.reaches_image grounded image reachedTwin
  exact absurd (complete.fresh_of_image (grounded origin before) image occupiesTwin) (Nat.not_le.mpr old)

end Completed

end Copying

/-- A deep copy leaves the cells it finds as they are and reaches new cells only, so that changes to
cells it reaches cannot be seen from its source; and where nothing is apart from its copies, it is
equal to its source. -/
theorem StoreM.copy_is_equal_and_independent (store : Store) (value : Value)
    (grounded : store.Grounded value) :
    ∃ copied after, (copy value).run store = .ok copied after ∧
      (∀ ref < store.cells.size, after.cells[ref]? = store.cells[ref]?) ∧
      (∀ held ref, after.Reaches copied held → after.Occupies held ref → store.cells.size ≤ ref) ∧
      (∀ later : Store,
        (∀ ref, (∀ held, after.Reaches copied held → ¬after.Occupies held ref) →
          later.cells[ref]? = after.cells[ref]?) →
        ∀ held, (later.Reaches value held ↔ store.Reaches value held) ∧
          (store.Reaches value held → store.SameFor later held)) ∧
      ((∀ held, Relation.ReflTransGen store.Contains value held → held.Comparable) →
        after.equal copied value = true) := by
  obtain ⟨copied, state, run, complete, image⟩ := copy_completes grounded
  refine ⟨copied, state.store, run, complete.kept, ?_, ?_, ?_⟩
  · intro held ref reached occupies
    obtain ⟨origin, before, image⟩ := complete.reaches_image grounded image reached
    exact complete.fresh_of_image (grounded origin before) image occupies
  · intro later outside held
    have same : ∀ holder, store.Reaches value holder → store.SameFor later holder :=
      fun holder reached => complete.sameFor_of_outside grounded image outside reached
    exact ⟨reaches_iff same, same held⟩
  · intro comparable
    exact complete.equal_of_beside ⟨image, grounded, comparable⟩

/-- An array that holds one map twice, which holds the array. -/
def sharedCycle : Store where
  cells := #[.array #[.map .frozen 1, .map .writable 1],
    .map (Table.empty.insert "owner" (.array .writable 0))]

theorem sharedCycle_closed {holder held : Value}
    (known : holder = .array .writable 0 ∨ ∃ handle, holder = .map handle 1)
    (holds : sharedCycle.Holds holder held) :
    held = .array .writable 0 ∨ ∃ handle, held = .map handle 1 := by
  rcases known with rfl | ⟨handle, rfl⟩
  · cases holds with
    | contains inside =>
      cases inside with
      | element _ member =>
        simp [sharedCycle, Store.elements] at member
        rcases member with rfl | rfl
        · exact .inr ⟨.frozen, rfl⟩
        · exact .inr ⟨.writable, rfl⟩
  · cases holds with
    | contains inside =>
      cases inside with
      | entry _ key found =>
        simp [sharedCycle, Store.entries] at found
        exact .inl found.2.symm

theorem sharedCycle_reached {held : Value}
    (reached : sharedCycle.Reaches (.array .writable 0) held) :
    held = .array .writable 0 ∨ ∃ handle, held = .map handle 1 := by
  induction reached with
  | refl => exact .inl rfl
  | tail _ holds ih => exact sharedCycle_closed ih holds

theorem StoreM.copy_is_equal_and_independent_sharedCycle :
    sharedCycle.Grounded (.array .writable 0) ∧
    ∃ copied after, (copy (.array .writable 0)).run sharedCycle = .ok copied after ∧
      (∀ ref < 2, after.cells[ref]? = sharedCycle.cells[ref]?) ∧
      (∀ held ref, after.Reaches copied held → after.Occupies held ref → 2 ≤ ref) ∧
      after.equal copied (.array .writable 0) = true := by
  have grounded : sharedCycle.Grounded (.array .writable 0) := by
    intro held reached
    rcases sharedCycle_reached reached with rfl | ⟨handle, rfl⟩
    · exact .array _ _ rfl
    · exact .map _ _ rfl
  obtain ⟨copied, after, run, kept, fresh, -, equal⟩ := copy_is_equal_and_independent _ _ grounded
  refine ⟨grounded, copied, after, run, kept, fresh, equal fun held contained => ?_⟩
  have reached : sharedCycle.Reaches (.array .writable 0) held :=
    Relation.ReflTransGen.mono (fun _ _ => Holds.contains) _ _ contained
  rcases sharedCycle_reached reached with rfl | ⟨handle, rfl⟩
  · trivial
  · trivial

end ScriptMachine
