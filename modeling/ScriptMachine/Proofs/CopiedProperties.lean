import ScriptMachine.Proofs.PropertyStores

/-! Deep copies of properties and of the tables that list them. Copying makes no property and no table
that is not the copy of one. -/

namespace ScriptMachine

def Cell.Declares : Cell → Prop
  | .property _ | .members .. => True
  | _ => False

namespace Copying

/-- From some cell on, each property and each table is noted as a copy. -/
def Registered (low : Ref) (state : Copying) : Prop :=
  ∀ (ref : Ref) (cell : Cell), low ≤ ref → state.store.cells[ref]? = some cell → cell.Declares →
    ∃ source : Ref, state.copies[source]? = some ref

/-- Notes stay, and what is made is noted. -/
structure Registers (low : Ref) (before after : Copying) : Prop where
  noted : ∀ ref copied : Ref, before.copies[ref]? = some copied → after.copies[ref]? = some copied
  registered : before.Registered low → after.Registered low

variable {low : Ref} {before middle after : Copying}

theorem Registers.refl (state : Copying) : Registers low state state :=
  ⟨fun _ _ found => found, fun registered => registered⟩

theorem Registers.trans (first : Registers low before middle) (second : Registers low middle after) :
    Registers low before after :=
  ⟨fun ref copied found => second.noted ref copied (first.noted ref copied found),
    fun registered => second.registered (first.registered registered)⟩

theorem Registers.push (state : Copying) {cell : Cell} (plain : ¬cell.Declares) :
    Registers low state (state.push cell) := by
  refine ⟨fun _ _ found => found, fun registered ref held above found declares => ?_⟩
  rw [show (state.push cell).store.cells = state.store.cells.push cell from rfl, Array.getElem?_push]
    at found
  split at found
  · cases found
    exact absurd declares plain
  · exact registered ref held above found declares

theorem Registers.put (state : Copying) (target : Ref) {cell : Cell}
    (known : cell.Declares → ∃ source : Ref, state.copies[source]? = some target) :
    Registers low state (state.put target cell) := by
  refine ⟨fun _ _ found => found, fun registered ref held above found declares => ?_⟩
  by_cases same : ref = target
  · subst same
    have inside := Store.lt_of_getElem?_eq_some found
    rw [size_put] at inside
    rw [state.getElem?_put_self cell inside] at found
    cases found
    exact known declares
  · rw [state.getElem?_put_of_ne cell same] at found
    exact registered ref held above found declares

theorem Registers.note_push (state : Copying) (cell : Cell) {ref : Ref}
    (absent : state.copies[ref]? = none) :
    Registers low state ((state.push cell).note ref state.store.cells.size) := by
  refine ⟨fun other copied found => ?_, fun registered other held above found declares => ?_⟩
  · have apart : other ≠ ref := by
      rintro rfl
      cases absent.symm.trans found
    rw [Copying.getElem?_note_of_ne _ apart]
    exact found
  · by_cases last : other = state.store.cells.size
    · exact ⟨ref, by rw [Copying.getElem?_note_self, last]⟩
    · have before : state.store.cells[other]? = some held := by
        rw [show ((state.push cell).note ref state.store.cells.size).store.cells =
          state.store.cells.push cell from rfl, Array.getElem?_push, if_neg last] at found
        exact found
      obtain ⟨source, known⟩ := registered other held above before declares
      have apart : source ≠ ref := by
        rintro rfl
        cases absent.symm.trans known
      exact ⟨source, by rw [Copying.getElem?_note_of_ne _ apart]; exact known⟩

end Copying

namespace CopyM

open Copying

/-- A copying computation that notes the properties and tables it makes. -/
def Registering (low : Ref) {α : Type} (make : CopyM α) : Prop :=
  ∀ state, Registers low state (make.run state).2

variable {low : Ref}

theorem registering_unlessCopied (ref : Ref) {make : CopyM Ref}
    (makes : ∀ state : Copying, state.copies[ref]? = none → Registers low state (make.run state).2) :
    Registering low (unlessCopied ref make) := by
  intro state
  cases found : state.copies[ref]? with
  | some copied =>
    rw [run_unlessCopied_of_some found]
    exact .refl state
  | none =>
    rw [run_unlessCopied_of_none found]
    exact makes state found

theorem registering_structural : Structural fun make => Registering low make where
  composes := ⟨fun _ state => .refl state, fun first next state => (first state).trans (next _ _)⟩
  read _ state := .refl state
  freshId _ := ⟨fun _ _ found => found, fun registered => registered⟩
  function _ state := .push state id
  once ref blank contents _ _ makes := by
    refine registering_unlessCopied ref fun state absent => ?_
    let copied := state.store.cells.size
    have begun : Registers low state ((state.push blank).note ref copied) := .note_push state blank absent
    have filled := makes ((state.push blank).note ref copied)
    have noted : (contents.run ((state.push blank).note ref copied)).2.copies[ref]? = some copied :=
      filled.noted ref copied (getElem?_note_self _ _ _)
    exact (begun.trans filled).trans (.put _ copied fun _ => ⟨ref, noted⟩)
  object copy ref makes := by
    refine registering_unlessCopied ref fun state absent => ?_
    let source := state.store.object ref
    let opening := state.push (.map {})
    let made : Cell := .object { type := source.type, values := state.store.cells.size }
    have begun : Registers low state ((opening.push made).note ref opening.store.cells.size) :=
      (Registers.push state id).trans (.note_push opening made absent)
    have filled := makes source ((opening.push made).note ref opening.store.cells.size)
    rw [show (do newObject copy ref (← read (·.object ref)) : CopyM Ref).run state =
      (newObject copy ref source).run state from rfl, run_newObject rfl]
    exact (begun.trans filled).trans (.put _ _ fun declares => declares.elim)

end CopyM

namespace Copying

theorem registered_initial (store : Store) : Registered store.cells.size { store } :=
  fun _ _ above found => absurd (Store.lt_of_getElem?_eq_some found) (Nat.not_lt.mpr above)

namespace Completed

variable {source : Store} {state : Copying} (complete : state.Completed source)
  (registered : state.Registered source.cells.size)

include complete registered

theorem property_origin {ref : Ref} {property : Property} (above : source.cells.size ≤ ref)
    (found : state.store.cells[ref]? = some (.property property)) :
    ∃ (origin : Ref) (original : Property), source.cells[origin]? = some (.property original) ∧
      Cell.Image state.copies (.property original) (.property property) := by
  obtain ⟨origin, noted⟩ := registered ref _ above found trivial
  cases (complete.made origin ref noted).2 with
  | cell there made image =>
    cases found.symm.trans made
    cases image with
    | property getter setter tags => exact ⟨origin, _, there, .property getter setter tags⟩
  | object there held made => cases found.symm.trans made

/-- What a table lists is listed by the table that it is a copy of, or the copy of such a property. -/
theorem lists_origin {table ref : Ref} {name : String} (lists : state.store.Lists table name ref) :
    source.Lists table name ref ∨ source.cells.size ≤ table ∧ ∃ origin member,
      source.Lists origin name member ∧ state.copies[member]? = some ref := by
  obtain ⟨members, found, there⟩ := lists
  by_cases old : table < source.cells.size
  · exact .inl ⟨members, (complete.kept table old).symm.trans found, there⟩
  · have above := Nat.le_of_not_lt old
    obtain ⟨origin, noted⟩ := registered table _ above found trivial
    cases (complete.made origin table noted).2 with
    | cell before made image =>
      cases found.symm.trans made
      cases image with
      | members kind each =>
        obtain ⟨member, listed, copied⟩ := each.origin there
        exact .inr ⟨above, origin, member, ⟨_, before, listed⟩, copied⟩
    | object before held made => cases found.symm.trans made

open Store

/-- Copying keeps a store furnished, provided that the copies count as given. -/
theorem furnished {given : Ref → Prop} (furnished : source.Furnished given)
    (copies : ∀ ref, source.cells.size ≤ ref → given ref) : state.store.Furnished given := by
  have serves (ref : Ref) (property : Property)
      (found : state.store.cells[ref]? = some (.property property)) : property.Serves := by
    by_cases old : ref < source.cells.size
    · exact furnished.serves ref property ((complete.kept ref old).symm.trans found)
    · obtain ⟨origin, original, there, image⟩ :=
        complete.property_origin registered (Nat.le_of_not_lt old) found
      have known := furnished.serves origin original there
      cases image with
      | property getter setter tags =>
        refine ⟨fun function held => ?_, fun function held => ?_⟩
        · obtain ⟨value, held, image⟩ := exists_of_optionRel getter held
          exact image.isMethodConvertible_eq.trans (known.getter value held)
        · obtain ⟨value, held, image⟩ := exists_of_optionRel setter held
          exact image.isMethodConvertible_eq.trans (known.setter value held)
  refine ⟨serves, fun table name ref lists => ?_⟩
  rcases complete.lists_origin registered lists with before | ⟨-, origin, member, before, noted⟩
  · obtain ⟨property, found, known⟩ := furnished.listed table name ref before
    refine ⟨property, complete.kept_store ref _ found, known.imp_right fun sole => ⟨sole.1, ?_⟩⟩
    intro other label also
    rcases complete.lists_origin registered also with also | ⟨-, origin, member, -, noted⟩
    · exact sole.2 other label also
    · exact absurd (lt_of_getElem?_eq_some found) (Nat.not_lt.mpr (complete.made member ref noted).1)
  · obtain ⟨property, found, -⟩ := furnished.listed origin name member before
    obtain ⟨above, copied⟩ := complete.made member ref noted
    cases copied with
    | cell there made image =>
      cases found.symm.trans there
      cases image with
      | property => exact ⟨_, made, .inl (copies ref above)⟩
    | object there => cases found.symm.trans there

end Completed

end Copying

namespace StoreM

open Store Copying

variable {given : Ref → Prop} {base store : Store}

theorem curated_copying {α : Type} {make : CopyM α} (curated : Curated given base store)
    (grows : Grows store { store } (make { store }).2)
    (registers : CopyM.Registering store.cells.size make)
    (copies : ∀ ref, base.cells.size ≤ ref → given ref) :
    Curated given base (make { store }).2.store := by
  have complete := Completed.of_grows grows
  have registered := (registers { store }).registered (registered_initial store)
  refine ⟨complete.furnished registered curated.furnished fun ref above => ?_, ?_⟩
  · exact copies ref (Nat.le_trans curated.edits.size_le above)
  · exact curated.edits.trans (.of_kept complete.kept_store)

/-- Copies keep a store curated, if whatever is new counts as given. -/
theorem tolerant_curated (copies : ∀ ref, base.cells.size ≤ ref → given ref) :
    Tolerant (Curated given base) where
  map store entries curated := curated.push_map entries
  copy {store later value copied} grounded ran curated := by
    let enough := store.cells.size + 1
    have few : uncopied store.cells.size ∅ < enough := Nat.lt_succ_of_le (uncopied_le_size _ _)
    obtain ⟨grows, -⟩ :=
      CopyM.makes_within enough value grounded { store } ⟨Nat.le_refl _, fun _ _ => rfl⟩ few
    cases ran
    exact curated_copying curated grows (CopyM.registering_structural.within enough value) copies
  copyTable {store later table copied} grounded ran curated := by
    let enough := store.cells.size + 1
    have few : uncopied store.cells.size ∅ < enough := Nat.lt_succ_of_le (uncopied_le_size _ _)
    obtain ⟨grows, -⟩ := CopyM.makes_table_mapM CopyM.lasting_image table (fun name value found =>
      CopyM.makes_within enough value (grounded name value found)) { store }
        ⟨Nat.le_refl _, fun _ _ => rfl⟩ few
    cases ran
    exact curated_copying curated grows (CopyM.registering_structural.composes.table_mapM table
      (CopyM.registering_structural.within enough)) copies

end StoreM

end ScriptMachine
