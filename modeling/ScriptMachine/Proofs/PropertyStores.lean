import ScriptMachine.Proofs.DeclaredMembers
import ScriptMachine.Proofs.FunctionCells

/-! The properties of a store and the tables that list them. A property that was never handed on as an
object stands in one place, and has an accessor there. -/

namespace ScriptMachine

/-- A cell, and what it may become: properties, tables of members and types change, other cells do not. -/
inductive Cell.Edited : Cell → Cell → Prop where
  | same (cell : Cell) : Edited cell cell
  | property (before after : Property) : Edited (.property before) (.property after)
  | members (kind : MemberKind) (before after : Table Ref) :
      Edited (.members kind before) (.members kind after)
  | type (before after : TypeObject) : Edited (.type before) (.type after)

theorem Cell.Edited.trans {first second third : Cell} (edit : first.Edited second)
    (next : second.Edited third) : first.Edited third := by
  cases edit with
  | same => exact next
  | property => cases next <;> constructor
  | members => cases next <;> constructor
  | type => cases next <;> constructor

theorem Cell.Edited.admits {old cell : Cell} (edited : old.Edited cell) (plain : old.Plain) :
    old.admits cell = true := by
  cases edited with
  | same =>
    cases old with
    | function function => exact plain.elim
    | members kind members => exact decide_eq_true rfl
    | _ => rfl
  | property => rfl
  | members => exact decide_eq_true rfl
  | type => rfl

namespace Store

/-- Each cell of a store is in a later one, edited at most. -/
def Edits (store later : Store) : Prop :=
  ∀ (ref : Ref) (cell : Cell), store.cells[ref]? = some cell →
    ∃ edited, later.cells[ref]? = some edited ∧ cell.Edited edited

namespace Edits

variable {store middle later : Store} {ref : Ref}

theorem refl (store : Store) : store.Edits store := fun _ cell found => ⟨cell, found, .same cell⟩

theorem trans (first : store.Edits middle) (second : middle.Edits later) : store.Edits later := by
  intro ref cell found
  obtain ⟨edited, there, edit⟩ := first ref cell found
  obtain ⟨last, found, next⟩ := second ref edited there
  exact ⟨last, found, edit.trans next⟩

theorem of_kept (kept : store.Kept later) : store.Edits later :=
  fun ref cell found => ⟨cell, kept ref cell found, .same cell⟩

variable (edits : store.Edits later)

include edits

theorem size_le : store.cells.size ≤ later.cells.size := by
  cases size : store.cells.size with
  | zero => exact Nat.zero_le _
  | succ last =>
    have inside : last < store.cells.size := by omega
    obtain ⟨edited, there, -⟩ := edits last _ (Array.getElem?_eq_getElem inside)
    exact lt_of_getElem?_eq_some there

theorem property {property : Property} (found : store.cells[ref]? = some (.property property)) :
    ∃ edited, later.cells[ref]? = some (.property edited) := by
  obtain ⟨cell, there, edit⟩ := edits ref _ found
  cases edit with
  | same => exact ⟨_, there⟩
  | property before after => exact ⟨_, there⟩

theorem members {kind : MemberKind} {members : Table Ref}
    (found : store.cells[ref]? = some (.members kind members)) :
    ∃ edited, later.cells[ref]? = some (.members kind edited) := by
  obtain ⟨cell, there, edit⟩ := edits ref _ found
  cases edit with
  | same => exact ⟨_, there⟩
  | members kind before after => exact ⟨_, there⟩

theorem type {type : TypeObject} (found : store.cells[ref]? = some (.type type)) :
    ∃ edited, later.cells[ref]? = some (.type edited) := by
  obtain ⟨cell, there, edit⟩ := edits ref _ found
  cases edit with
  | same => exact ⟨_, there⟩
  | type before after => exact ⟨_, there⟩

theorem entries_eq {entries : Table Value} (found : store.cells[ref]? = some (.map entries)) :
    later.entries ref = entries := by
  obtain ⟨cell, there, edit⟩ := edits ref _ found
  cases edit with
  | same => simp only [Store.entries, there]

end Edits

theorem edits_overwrite {store : Store} {ref : Ref} {old cell : Cell}
    (found : store.cells[ref]? = some old) (edited : old.Edited cell)
    (plain : old.Plain) : store.Edits (store.overwrite ref cell) ∧
      (store.overwrite ref cell).cells[ref]? = some cell := by
  have written : (store.overwrite ref cell).cells[ref]? = some cell :=
    getElem?_overwrite found (edited.admits plain)
  refine ⟨?_, written⟩
  intro other there before
  by_cases same : other = ref
  · subst same
    cases found.symm.trans before
    exact ⟨cell, written, edited⟩
  · refine ⟨there, ?_, .same there⟩
    rw [getElem?_overwrite_of_ne _ same, before]

theorem edits_changeMembers (store : Store) (table : Ref) (change : Table Ref → Table Ref) :
    store.Edits (store.changeMembers table change) := by
  intro ref cell found
  by_cases same : ref = table
  · subst same
    simp only [changeMembers, Array.getElem?_modify, found, ↓reduceIte, Option.map_some]
    cases cell with
    | members kind members => exact ⟨_, rfl, .members kind _ _⟩
    | _ => exact ⟨_, rfl, .same _⟩
  · refine ⟨cell, ?_, .same cell⟩
    rw [getElem?_changeMembers_of_ne same, found]

def Lists (store : Store) (table : Ref) (name : String) (ref : Ref) : Prop :=
  ∃ members, store.cells[table]? = some (.members .property members) ∧ members.get? name = some ref

variable {store later : Store} {given : Ref → Prop} {table other ref listed : Ref} {name label : String}

theorem Lists.of_push {cell : Cell} (blank : ∀ members, cell = .members .property members → members = ∅)
    (lists : Store.Lists { store with cells := store.cells.push cell } table name ref) :
    store.Lists table name ref := by
  obtain ⟨members, found, there⟩ := lists
  rw [Array.getElem?_push] at found
  split at found
  · cases found
    rw [blank members rfl] at there
    cases (Table.get?_empty name).symm.trans there
  · exact ⟨members, found, there⟩

theorem Lists.kept (kept : store.Kept later) (lists : store.Lists table name ref) :
    later.Lists table name ref := by
  obtain ⟨members, found, there⟩ := lists
  exact ⟨members, kept table _ found, there⟩

theorem Lists.insert_self {members : Table Ref} (found : store.cells[table]? = some (.members .property members))
    (name : String) (ref : Ref) : (store.changeMembers table (·.insert name ref)).Lists table name ref := by
  refine ⟨members.insert name ref, ?_, by simp⟩
  simp [changeMembers, Array.getElem?_modify, found]

theorem Lists.insert_other (lists : store.Lists table name ref) (apart : name ≠ label) :
    (store.changeMembers other (·.insert label listed)).Lists table name ref := by
  obtain ⟨members, found, there⟩ := lists
  by_cases same : table = other
  · subst same
    refine ⟨members.insert label listed, ?_, ?_⟩
    · simp [changeMembers, Array.getElem?_modify, found]
    · rw [Table.get?_insert, if_neg apart.symm, there]
  · exact ⟨members, by rw [getElem?_changeMembers_of_ne same, found], there⟩

theorem Lists.of_insert
    (lists : (store.changeMembers table (·.insert name ref)).Lists other label listed) :
    store.Lists other label listed ∨ (other = table ∧ label = name ∧ listed = ref) := by
  obtain ⟨members, found, there⟩ := lists
  by_cases same : other = table
  · subst same
    simp only [changeMembers, Array.getElem?_modify, ↓reduceIte, Option.map_eq_some_iff] at found
    obtain ⟨cell, before, changed⟩ := found
    cases cell with
    | members kind members =>
      cases changed
      rw [Table.get?_insert] at there
      split at there
      next is =>
        cases there
        exact .inr ⟨rfl, is.symm, rfl⟩
      next => exact .inl ⟨_, before, there⟩
    | _ => cases changed
  · rw [getElem?_changeMembers_of_ne same] at found
    exact .inl ⟨members, found, there⟩

theorem Lists.of_erase (lists : (store.changeMembers table (·.erase name)).Lists other label listed) :
    store.Lists other label listed ∧ ¬(other = table ∧ label = name) := by
  obtain ⟨members, found, there⟩ := lists
  by_cases same : other = table
  · subst same
    simp only [changeMembers, Array.getElem?_modify, ↓reduceIte, Option.map_eq_some_iff] at found
    obtain ⟨cell, before, changed⟩ := found
    cases cell with
    | members kind members =>
      cases changed
      rw [Table.get?_erase] at there
      split at there
      next => cases there
      next other => exact ⟨⟨_, before, there⟩, fun is => other is.2.symm⟩
    | _ => cases changed
  · rw [getElem?_changeMembers_of_ne same] at found
    exact ⟨⟨members, found, there⟩, fun is => same is.1⟩

theorem Lists.of_overwrite_plain {cell : Cell} (plain : ∀ members, cell ≠ .members .property members)
    (lists : (store.overwrite ref cell).Lists table name listed) : store.Lists table name listed := by
  obtain ⟨members, found, there⟩ := lists
  by_cases same : table = ref
  · subst same
    simp only [overwrite, Array.getElem?_modify, ↓reduceIte, Option.map_eq_some_iff] at found
    obtain ⟨old, before, changed⟩ := found
    split at changed
    · exact absurd changed (plain members)
    · exact ⟨members, changed ▸ before, there⟩
  · rw [getElem?_overwrite_of_ne _ same] at found
    exact ⟨members, found, there⟩

theorem Lists.of_overwrite {property : Property}
    (lists : (store.overwrite ref (.property property)).Lists table name listed) :
    store.Lists table name listed :=
  lists.of_overwrite_plain fun _ is => by cases is

/-- Each accessor can serve as a method, and each listed property is there: as an object that was given
to someone, or with an accessor and in no other place. -/
structure Furnished (given : Ref → Prop) (store : Store) : Prop where
  serves : ∀ (ref : Ref) (property : Property), store.cells[ref]? = some (.property property) →
    property.Serves
  listed : ∀ table name ref, store.Lists table name ref →
    ∃ property, store.cells[ref]? = some (.property property) ∧
      (given ref ∨ property.isEmpty = false ∧
        ∀ other label, store.Lists other label ref → other = table ∧ label = name)

namespace Furnished

theorem property_serves (furnished : store.Furnished given) (ref : Ref) :
    (store.property ref).Serves := by
  unfold Store.property
  split
  next property found => exact furnished.serves ref property found
  next => exact .blank

/-- Only the references of a store's cells matter among those given. -/
theorem bounded {others : Ref → Prop} (furnished : store.Furnished given)
    (inside : ∀ ref < store.cells.size, given ref → others ref) : store.Furnished others := by
  refine ⟨furnished.serves, fun table name ref lists => ?_⟩
  obtain ⟨property, found, known⟩ := furnished.listed table name ref lists
  exact ⟨property, found, known.imp_left (inside ref (lt_of_getElem?_eq_some found))⟩

/-- A store that lists no more than before, and has the same properties. -/
theorem mono (furnished : store.Furnished given)
    (lists : ∀ table name ref, later.Lists table name ref → store.Lists table name ref)
    (kept : ∀ (ref : Ref) (property : Property), store.cells[ref]? = some (.property property) →
      later.cells[ref]? = some (.property property))
    (serves : ∀ (ref : Ref) (property : Property), later.cells[ref]? = some (.property property) →
      property.Serves) : later.Furnished given := by
  refine ⟨serves, fun table name ref listed => ?_⟩
  obtain ⟨property, found, known⟩ := furnished.listed table name ref (lists _ _ _ listed)
  refine ⟨property, kept ref property found, known.imp_right fun own => ⟨own.1, ?_⟩⟩
  exact fun other label also => own.2 other label (lists _ _ _ also)

/-- A store in which one property is new or another: it is given, or furnished in its only place. -/
theorem change {property : Property} (furnished : store.Furnished given)
    (lists : ∀ table name listed, later.Lists table name listed →
      store.Lists table name listed ∨ listed = ref)
    (others : ∀ other ≠ ref, ∀ held, later.cells[other]? = some (.property held) ↔
      store.cells[other]? = some (.property held))
    (there : later.cells[ref]? = some (.property property)) (serves : property.Serves)
    (own : ∀ table name, later.Lists table name ref → given ref ∨ property.isEmpty = false ∧
      ∀ other label, later.Lists other label ref → other = table ∧ label = name) :
    later.Furnished given := by
  refine ⟨?_, ?_⟩
  · intro other held found
    by_cases same : other = ref
    · subst same
      cases there.symm.trans found
      exact serves
    · exact furnished.serves other held ((others other same held).mp found)
  · intro table name listed listing
    by_cases same : listed = ref
    · subst same
      exact ⟨property, there, own table name listing⟩
    · have before {table : Ref} {name : String} (listing : later.Lists table name listed) :
          store.Lists table name listed := (lists _ _ _ listing).resolve_right same
      obtain ⟨held, found, known⟩ := furnished.listed table name listed (before listing)
      refine ⟨held, (others listed same held).mpr found, known.imp_right fun sole => ⟨sole.1, ?_⟩⟩
      exact fun other label also => sole.2 other label (before also)

theorem push (furnished : store.Furnished given) {cell : Cell}
    (serves : ∀ property, cell = .property property → property.Serves)
    (blank : ∀ members, cell = .members .property members → members = ∅) :
    Store.Furnished given { store with cells := store.cells.push cell } := by
  refine furnished.mono (fun _ _ _ => Lists.of_push blank) (fun ref property found => ?_) ?_
  · exact Kept.push store cell ref _ found
  · intro ref property found
    rw [Array.getElem?_push] at found
    split at found
    · cases found
      exact serves property rfl
    · exact furnished.serves ref property found

theorem getElem?_changeMembers_property {change : Table Ref → Table Ref} {property : Property} :
    (store.changeMembers table change).cells[ref]? = some (.property property) ↔
      store.cells[ref]? = some (.property property) := by
  by_cases same : ref = table
  · subst same
    simp only [changeMembers, Array.getElem?_modify, ↓reduceIte]
    cases found : store.cells[ref]? with
    | none => rfl
    | some cell => cases cell <;> simp
  · rw [getElem?_changeMembers_of_ne same]

theorem erase (furnished : store.Furnished given) (table : Ref) (name : String) :
    (store.changeMembers table (·.erase name)).Furnished given := by
  refine furnished.mono (fun _ _ _ lists => lists.of_erase.1) (fun ref property found => ?_) ?_
  · exact getElem?_changeMembers_property.mpr found
  · exact fun ref property found => furnished.serves ref property (getElem?_changeMembers_property.mp found)

/-- A table that does not list properties can take any member. -/
theorem insert_elsewhere (furnished : store.Furnished given) (name : String) (member : Ref)
    (plain : ∀ members, store.cells[table]? ≠ some (.members .property members)) :
    (store.changeMembers table (·.insert name member)).Furnished given := by
  refine furnished.mono (fun other label listed lists => ?_) (fun ref property found => ?_) ?_
  · rcases lists.of_insert with before | ⟨rfl, rfl, rfl⟩
    · exact before
    · obtain ⟨members, found, -⟩ := lists
      simp only [changeMembers, Array.getElem?_modify, ↓reduceIte, Option.map_eq_some_iff] at found
      obtain ⟨cell, before, changed⟩ := found
      cases cell with
      | members kind members =>
        cases changed
        exact absurd before (plain members)
      | _ => cases changed
  · exact getElem?_changeMembers_property.mpr found
  · exact fun ref property found => furnished.serves ref property (getElem?_changeMembers_property.mp found)

/-- A table can take a property that is given, or an own one that is listed nowhere. -/
theorem insert {property : Property} (furnished : store.Furnished given) (table : Ref) (name : String)
    (found : store.cells[ref]? = some (.property property))
    (own : given ref ∨ property.isEmpty = false ∧ ∀ other label, ¬store.Lists other label ref) :
    (store.changeMembers table (·.insert name ref)).Furnished given := by
  have there := (@getElem?_changeMembers_property store table ref (·.insert name ref) property).mpr found
  refine furnished.change ?_ (fun _ _ _ => getElem?_changeMembers_property) there
    (furnished.serves ref property found) ?_
  · exact fun other label listed lists => lists.of_insert.imp_right fun is => is.2.2
  · intro other label lists
    refine own.imp_right fun alone => ⟨alone.1, fun another tag also => ?_⟩
    obtain ⟨rfl, rfl, -⟩ := lists.of_insert.resolve_left (alone.2 other label)
    obtain ⟨rfl, rfl, -⟩ := also.of_insert.resolve_left (alone.2 another tag)
    exact ⟨rfl, rfl⟩

/-- A property that is given, keeps an accessor or is listed nowhere can be changed. -/
theorem rewrite {old property : Property} (furnished : store.Furnished given)
    (found : store.cells[ref]? = some (.property old)) (serves : property.Serves)
    (own : given ref ∨ property.isEmpty = false ∨ ∀ table name, ¬store.Lists table name ref) :
    (store.overwrite ref (.property property)).Furnished given := by
  have written := (edits_overwrite found (.property old property) trivial).2
  refine furnished.change (fun _ _ _ lists => .inl lists.of_overwrite) ?_ written serves ?_
  · intro other apart held
    rw [getElem?_overwrite_of_ne _ apart]
  · intro table name lists
    obtain ⟨held, there, known⟩ := furnished.listed table name ref lists.of_overwrite
    rcases own with given | keeps | nowhere
    · exact .inl given
    · exact known.imp_right fun sole => ⟨keeps, fun other label also => sole.2 other label also.of_overwrite⟩
    · exact absurd lists.of_overwrite (nowhere table name)

/-- A property that loses its last accessor can be removed from a table that lists it. -/
theorem remove {old property : Property} (furnished : store.Furnished given)
    (lists : store.Lists table name ref) (found : store.cells[ref]? = some (.property old))
    (serves : property.Serves) :
    ((store.overwrite ref (.property property)).changeMembers table (·.erase name)).Furnished given := by
  have written := (edits_overwrite found (.property old property) trivial).2
  obtain ⟨held, there, known⟩ := furnished.listed table name ref lists
  have there : ((store.overwrite ref (.property property)).changeMembers table (·.erase name)).cells[ref]? =
      some (.property property) := getElem?_changeMembers_property.mpr written
  refine furnished.change ?_ ?_ there serves ?_
  · exact fun other label listed also => .inl also.of_erase.1.of_overwrite
  · intro other apart held
    rw [getElem?_changeMembers_property, getElem?_overwrite_of_ne _ apart]
  · intro other label also
    refine .inl (known.resolve_right fun sole => also.of_erase.2 ?_)
    exact sole.2 other label also.of_erase.1.of_overwrite

theorem retype {old type : TypeObject} (furnished : store.Furnished given)
    (found : store.cells[ref]? = some (.type old)) : (store.overwrite ref (.type type)).Furnished given := by
  have written := (edits_overwrite found (.type old type) trivial).2
  have same (other : Ref) (property : Property) :
      (store.overwrite ref (.type type)).cells[other]? = some (.property property) ↔
        store.cells[other]? = some (.property property) := by
    by_cases is : other = ref
    · simp [is, written, found]
    · rw [getElem?_overwrite_of_ne _ is]
  refine furnished.mono (fun _ _ _ lists => lists.of_overwrite_plain fun _ is => by cases is) ?_ ?_
  · exact fun other property there => (same other property).mpr there
  · exact fun other property there => furnished.serves other property ((same other property).mp there)

section Adding

variable {property : Property} (furnished : store.Furnished given)

/-- A store whose table has a new property, with no accessor to begin with and then another content. -/
def added (store : Store) (table : Ref) (name : String) (property : Property) : Store :=
  let made : Store := { store with cells := store.cells.push (.property {}) }
  (made.changeMembers table (·.insert name store.cells.size)).overwrite store.cells.size (.property property)

theorem lists_added (lists : (added store table name property).Lists other label listed) :
    store.Lists other label listed ∨ (other = table ∧ label = name ∧ listed = store.cells.size) :=
  lists.of_overwrite.of_insert.imp_left fun before => before.of_push fun _ is => by cases is

theorem getElem?_added_property (apart : ref ≠ store.cells.size) {held : Property} :
    (added store table name property).cells[ref]? = some (.property held) ↔
      store.cells[ref]? = some (.property held) := by
  rw [added, getElem?_overwrite_of_ne _ apart, getElem?_changeMembers_property]
  simp only [Array.getElem?_push, if_neg apart]

theorem edits_added : store.Edits (added store table name property) ∧
    (added store table name property).cells[store.cells.size]? = some (.property property) := by
  let made : Store := { store with cells := store.cells.push (.property {}) }
  have blank : made.cells[store.cells.size]? = some (.property {}) := Array.getElem?_push_size
  have there : (made.changeMembers table (·.insert name store.cells.size)).cells[store.cells.size]? =
      some (.property {}) := getElem?_changeMembers_property.mpr blank
  obtain ⟨edits, written⟩ := edits_overwrite there (.property {} property) trivial
  have begun : store.Edits made := .of_kept (.push store (.property {}))
  exact ⟨(begun.trans (edits_changeMembers made table _)).trans edits, written⟩

include furnished

theorem not_lists_size : ¬store.Lists table name store.cells.size := by
  intro lists
  obtain ⟨_, found, -⟩ := furnished.listed _ _ _ lists
  exact absurd (lt_of_getElem?_eq_some found) (Nat.lt_irrefl _)

theorem add (serves : property.Serves) (keeps : property.isEmpty = false) :
    (added store table name property).Furnished given := by
  refine furnished.change (fun _ _ _ lists => (lists_added lists).imp_right fun is => is.2.2)
    (fun _ apart _ => getElem?_added_property apart) edits_added.2 serves ?_
  intro other label lists
  refine .inr ⟨keeps, fun another tag also => ?_⟩
  obtain ⟨rfl, rfl, -⟩ := (lists_added lists).resolve_left furnished.not_lists_size
  obtain ⟨rfl, rfl, -⟩ := (lists_added also).resolve_left furnished.not_lists_size
  exact ⟨rfl, rfl⟩

theorem add_remove (serves : property.Serves) :
    ((added store table name property).changeMembers table (·.erase name)).Furnished given := by
  let removed := (added store table name property).changeMembers table (·.erase name)
  have there : removed.cells[store.cells.size]? = some (.property property) :=
    getElem?_changeMembers_property.mpr edits_added.2
  refine furnished.change ?_ (fun other apart held => ?_) there serves ?_
  · exact fun _ _ _ lists => (lists_added lists.of_erase.1).imp_right fun is => is.2.2
  · exact getElem?_changeMembers_property.trans (getElem?_added_property apart)
  · intro other label lists
    obtain ⟨before, apart⟩ := lists.of_erase
    obtain ⟨rfl, rfl, -⟩ := (lists_added before).resolve_left furnished.not_lists_size
    exact absurd ⟨rfl, rfl⟩ apart

end Adding

end Furnished

/-- A furnished store on the way from a base store, whose cells are edited at most. -/
structure Curated (given : Ref → Prop) (base store : Store) : Prop where
  furnished : store.Furnished given
  edits : base.Edits store

namespace Curated

variable {base : Store}

theorem refl (furnished : store.Furnished given) : Curated given store store := ⟨furnished, .refl store⟩

theorem push (curated : Curated given base store) {cell : Cell}
    (serves : ∀ property, cell = .property property → property.Serves)
    (blank : ∀ members, cell = .members .property members → members = ∅) :
    Curated given base { store with cells := store.cells.push cell } :=
  ⟨curated.furnished.push serves blank, curated.edits.trans (.of_kept (.push store cell))⟩

theorem push_map (curated : Curated given base store) (entries : Table Value) :
    Curated given base { store with cells := store.cells.push (.map entries) } :=
  curated.push (fun _ is => nomatch is) fun _ is => nomatch is

theorem push_entry (curated : Curated given base store) (entry : Entry) :
    Curated given base { store with cells := store.cells.push (.entry entry) } :=
  curated.push (fun _ is => nomatch is) fun _ is => nomatch is

theorem changeMembers {change : Table Ref → Table Ref} (curated : Curated given base store)
    (furnished : (store.changeMembers table change).Furnished given) :
    Curated given base (store.changeMembers table change) :=
  ⟨furnished, curated.edits.trans (edits_changeMembers store table change)⟩

end Curated

end Store

end ScriptMachine
