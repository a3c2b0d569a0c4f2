import ScriptMachine.Store
import Mathlib.Logic.Relation

/-! What a value holds, directly or by way of other values, and the cells in which it holds it.
Stores that agree on those cells agree on what the value reaches. -/

namespace ScriptMachine.Store

/-- What arrays, maps and instances hold. -/
inductive Contains (store : Store) : Value → Value → Prop where
  | element (handle : Handle) {ref : Ref} {held : Value} (member : held ∈ store.elements ref) :
      Contains store (.array handle ref) held
  | entry (handle : Handle) {ref : Ref} (key : String) {held : Value}
      (found : (store.entries ref).get? key = some held) : Contains store (.map handle ref) held
  | field {ref : Ref} (key : String) {held : Value}
      (found : (store.valuesOf ref).get? key = some held) : Contains store (.object ref) held

/-- What a value holds: a container its contents, an error its payload, a bound method its function,
a member of a type its value, accessors and tags. -/
inductive Holds (store : Store) : Value → Value → Prop where
  | contains {holder held : Value} (inside : store.Contains holder held) : Holds store holder held
  | payload (id : Nat) (payload : Value) : Holds store (.error id payload) payload
  | callee (id : Nat) (hold : Hold) (callee receiver : Value) :
      Holds store (.bound id hold callee receiver) callee
  | declared {kind : MemberKind} (plain : kind ≠ .property) (ref : Ref) :
      Holds store (.member kind ref) (store.entry ref).value
  | tag {kind : MemberKind} (plain : kind ≠ .property) {ref : Ref} (key : String) {held : Value}
      (found : (store.entry ref).tags.get? key = some held) : Holds store (.member kind ref) held
  | getter {ref : Ref} {held : Value} (found : (store.property ref).getter = some held) :
      Holds store (.member .property ref) held
  | setter {ref : Ref} {held : Value} (found : (store.property ref).setter = some held) :
      Holds store (.member .property ref) held
  | propertyTag {ref : Ref} (key : String) {held : Value}
      (found : (store.property ref).tags.get? key = some held) :
      Holds store (.member .property ref) held
  | listed (kind : MemberKind) {ref : Ref} (name : String) {member : Ref}
      (found : (store.members ref).get? name = some member) :
      Holds store (.members kind ref) (.member kind member)

/-- What a value holds by way of other values, and the value itself. -/
abbrev Reaches (store : Store) : Value → Value → Prop := Relation.ReflTransGen store.Holds

/-- The cells of containers that a value names. An instance has one for itself and one for its
values. -/
inductive Occupies (store : Store) : Value → Ref → Prop where
  | array (handle : Handle) (ref : Ref) : Occupies store (.array handle ref) ref
  | map (handle : Handle) (ref : Ref) : Occupies store (.map handle ref) ref
  | object (ref : Ref) : Occupies store (.object ref) ref
  | storage (ref : Ref) : Occupies store (.object ref) (store.object ref).values
  | member (kind : MemberKind) (ref : Ref) : Occupies store (.member kind ref) ref
  | members (kind : MemberKind) (ref : Ref) : Occupies store (.members kind ref) ref

/-- A value whose cells exist and are of its kind. -/
inductive Fits (store : Store) : Value → Prop where
  | array (handle : Handle) {ref : Ref} (elements : Array Value)
      (cell : store.cells[ref]? = some (.array elements)) : Fits store (.array handle ref)
  | map (handle : Handle) {ref : Ref} (entries : Table Value)
      (cell : store.cells[ref]? = some (.map entries)) : Fits store (.map handle ref)
  | object {ref : Ref} (object : Object) (values : Table Value)
      (cell : store.cells[ref]? = some (.object object))
      (storage : store.cells[object.values]? = some (.map values)) : Fits store (.object ref)
  | property {ref : Ref} (property : Property) (cell : store.cells[ref]? = some (.property property)) :
      Fits store (.member .property ref)
  | member {kind : MemberKind} (plain : kind ≠ .property) {ref : Ref} (entry : Entry)
      (cell : store.cells[ref]? = some (.entry entry)) : Fits store (.member kind ref)
  | members (kind : MemberKind) {ref : Ref} (members : Table Ref)
      (cell : store.cells[ref]? = some (.members kind members)) : Fits store (.members kind ref)
  | other {value : Value} (nowhere : ∀ ref, ¬store.Occupies value ref) : Fits store value

/-- A value all of whose holdings exist and are of their kinds. References come from allocation and
cells keep their kinds, so every value that a program has at hand is one. -/
def Grounded (store : Store) (value : Value) : Prop :=
  ∀ held, store.Reaches value held → store.Fits held

variable {store later : Store} {value holder held : Value} {ref : Ref}

theorem Grounded.fits (grounded : store.Grounded value) : store.Fits value := grounded value .refl

theorem Grounded.of_holds (grounded : store.Grounded holder) (holds : store.Holds holder held) :
    store.Grounded held :=
  fun _ reached => grounded _ (.head holds reached)

theorem lt_of_getElem?_eq_some {cell : Cell} (found : store.cells[ref]? = some cell) :
    ref < store.cells.size :=
  (Array.getElem?_eq_some_iff.mp found).1

section Cells

variable {kind : MemberKind} {handle : Handle}

theorem elements_eq {elements : Array Value} (cell : store.cells[ref]? = some (.array elements)) :
    store.elements ref = elements := by
  simp only [Store.elements, cell]

theorem entries_eq {entries : Table Value} (cell : store.cells[ref]? = some (.map entries)) :
    store.entries ref = entries := by
  simp only [Store.entries, cell]

theorem object_eq {object : Object} (cell : store.cells[ref]? = some (.object object)) :
    store.object ref = object := by
  simp only [Store.object, cell]

theorem property_eq {property : Property} (cell : store.cells[ref]? = some (.property property)) :
    store.property ref = property := by
  simp only [Store.property, cell]

theorem entry_eq {entry : Entry} (cell : store.cells[ref]? = some (.entry entry)) :
    store.entry ref = entry := by
  simp only [Store.entry, cell]

theorem members_eq {members : Table Ref} (cell : store.cells[ref]? = some (.members kind members)) :
    store.members ref = members := by
  simp only [Store.members, cell]

theorem type_eq {type : TypeObject} (cell : store.cells[ref]? = some (.type type)) :
    store.type ref = type := by
  simp only [Store.type, cell]

theorem Fits.array_cell (fits : store.Fits (.array handle ref)) :
    store.cells[ref]? = some (.array (store.elements ref)) := by
  cases fits with
  | array _ elements cell => rw [elements_eq cell, cell]
  | other nowhere => exact absurd (.array handle ref) (nowhere ref)

theorem Fits.map_cell (fits : store.Fits (.map handle ref)) :
    store.cells[ref]? = some (.map (store.entries ref)) := by
  cases fits with
  | map _ entries cell => rw [entries_eq cell, cell]
  | other nowhere => exact absurd (.map handle ref) (nowhere ref)

theorem Fits.object_cell (fits : store.Fits (.object ref)) :
    store.cells[ref]? = some (.object (store.object ref)) := by
  cases fits with
  | object object values cell => rw [object_eq cell, cell]
  | other nowhere => exact absurd (.object ref) (nowhere ref)

theorem Fits.storage_cell (fits : store.Fits (.object ref)) :
    store.cells[(store.object ref).values]? = some (.map (store.valuesOf ref)) := by
  cases fits with
  | object object values cell storage => rw [valuesOf, object_eq cell, entries_eq storage, storage]
  | other nowhere => exact absurd (.object ref) (nowhere ref)

theorem Fits.property_cell (fits : store.Fits (.member .property ref)) :
    store.cells[ref]? = some (.property (store.property ref)) := by
  cases fits with
  | property property cell => rw [property_eq cell, cell]
  | member plain => exact absurd rfl plain
  | other nowhere => exact absurd (.member .property ref) (nowhere ref)

theorem Fits.entry_cell (fits : store.Fits (.member kind ref)) (plain : kind ≠ .property) :
    store.cells[ref]? = some (.entry (store.entry ref)) := by
  cases fits with
  | property => exact absurd rfl plain
  | member _ entry cell => rw [entry_eq cell, cell]
  | other nowhere => exact absurd (.member kind ref) (nowhere ref)

theorem Fits.members_cell (fits : store.Fits (.members kind ref)) :
    store.cells[ref]? = some (.members kind (store.members ref)) := by
  cases fits with
  | members _ members cell => rw [members_eq cell, cell]
  | other nowhere => exact absurd (.members kind ref) (nowhere ref)

/-- A value that occupies no cell occupies none in another store either. -/
theorem Fits.of_nowhere (nowhere : ∀ ref, ¬store.Occupies value ref) : later.Fits value := by
  refine .other fun ref occupies => ?_
  cases occupies with
  | storage ref => exact nowhere ref (.object ref)
  | array handle ref => exact nowhere ref (.array handle ref)
  | map handle ref => exact nowhere ref (.map handle ref)
  | object ref => exact nowhere ref (.object ref)
  | member kind ref => exact nowhere ref (.member kind ref)
  | members kind ref => exact nowhere ref (.members kind ref)

end Cells

theorem Fits.lt (fits : store.Fits value) (occupies : store.Occupies value ref) :
    ref < store.cells.size := by
  cases occupies with
  | array => exact lt_of_getElem?_eq_some fits.array_cell
  | map => exact lt_of_getElem?_eq_some fits.map_cell
  | object => exact lt_of_getElem?_eq_some fits.object_cell
  | storage => exact lt_of_getElem?_eq_some fits.storage_cell
  | member kind =>
    cases kind with
    | property => exact lt_of_getElem?_eq_some fits.property_cell
    | field | method => exact lt_of_getElem?_eq_some (fits.entry_cell nofun)
  | members => exact lt_of_getElem?_eq_some fits.members_cell

/-- Two stores with the same contents in the cells that a value occupies. -/
def SameFor (store later : Store) (value : Value) : Prop :=
  ∀ ref, store.Occupies value ref → later.cells[ref]? = store.cells[ref]?

theorem SameFor.object_eq (same : store.SameFor later (.object ref)) :
    later.object ref = store.object ref := by
  simp only [object, same ref (.object ref)]

theorem SameFor.symm (same : store.SameFor later value) : later.SameFor store value := by
  intro ref occupies
  cases occupies with
  | storage ref =>
    rw [same.object_eq]
    exact (same _ (.storage ref)).symm
  | array handle ref => exact (same _ (.array handle ref)).symm
  | map handle ref => exact (same _ (.map handle ref)).symm
  | object ref => exact (same _ (.object ref)).symm
  | member kind ref => exact (same _ (.member kind ref)).symm
  | members kind ref => exact (same _ (.members kind ref)).symm

theorem Holds.transfer (same : store.SameFor later holder) (holds : store.Holds holder held) :
    later.Holds holder held := by
  cases holds with
  | contains inside =>
    refine .contains ?_
    cases inside with
    | @element handle ref held member =>
      refine .element handle ?_
      simpa only [elements, same ref (.array handle ref)] using member
    | @entry handle ref key held found =>
      refine .entry handle key ?_
      simpa only [entries, same ref (.map handle ref)] using found
    | @field ref key held found =>
      refine .field key ?_
      simpa only [valuesOf, entries, same.object_eq, same _ (.storage ref)] using found
  | payload => exact .payload _ _
  | callee => exact .callee _ _ _ _
  | @declared kind plain ref =>
    have entry : later.entry ref = store.entry ref := by simp only [entry, same ref (.member kind ref)]
    rw [← entry]
    exact .declared plain ref
  | @tag kind plain ref key held found =>
    refine .tag plain key ?_
    simpa only [entry, same ref (.member kind ref)] using found
  | @getter ref held found =>
    refine .getter ?_
    simpa only [property, same ref (.member .property ref)] using found
  | @setter ref held found =>
    refine .setter ?_
    simpa only [property, same ref (.member .property ref)] using found
  | @propertyTag ref key held found =>
    refine .propertyTag key ?_
    simpa only [property, same ref (.member .property ref)] using found
  | @listed kind ref name member found =>
    refine .listed kind name ?_
    simpa only [members, same ref (.members kind ref)] using found

/-- What a value reaches depends on the cells that it reaches alone. -/
theorem reaches_iff (same : ∀ holder, store.Reaches value holder → store.SameFor later holder) :
    later.Reaches value held ↔ store.Reaches value held := by
  constructor
  · intro reached
    induction reached with
    | refl => exact .refl
    | tail _ holds ih => exact ih.tail (holds.transfer (same _ ih).symm)
  · intro reached
    induction reached with
    | refl => exact .refl
    | tail before holds ih => exact ih.tail (holds.transfer (same _ before))

end ScriptMachine.Store
