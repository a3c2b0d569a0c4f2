import ScriptMachine.Iteration
import ScriptMachine.Proofs.FunctionCells
import ScriptMachine.Proofs.KeptCells
import ScriptMachine.Proofs.TableRelations
import Mathlib.Logic.Function.Iterate

/-! What stays of an instance whatever is done: its type, its storage and each method that was looked up
on it. Iterators are advanced at most. Deep copies are made in new cells, and only those are filled. -/

namespace ScriptMachine

/-- A method that an instance has looked up on itself: it is bound to the instance, weakly. -/
def Value.OwnMethod (ref : Ref) (value : Value) : Prop :=
  ∃ id callee, value = .bound id .weak callee (.object ref)

/-- A later form of an instance. Methods have been looked up on it at most. -/
structure Object.Lasts (ref : Ref) (object later : Object) : Prop where
  type : later.type = object.type
  values : later.values = object.values
  methods : ∀ name bound, object.methods.get? name = some bound → later.methods.get? name = some bound
  fresh : ∀ name bound, later.methods.get? name = some bound →
    object.methods.get? name = some bound ∨ bound.OwnMethod ref

namespace Object.Lasts

variable {ref : Ref} {object middle later : Object}

theorem refl (ref : Ref) (object : Object) : object.Lasts ref object :=
  ⟨rfl, rfl, fun _ _ known => known, fun _ _ known => .inl known⟩

theorem trans (first : object.Lasts ref middle) (second : middle.Lasts ref later) : object.Lasts ref later := by
  refine ⟨second.type.trans first.type, second.values.trans first.values, ?_, ?_⟩
  · exact fun name bound known => second.methods name bound (first.methods name bound known)
  · intro name bound known
    rcases second.fresh name bound known with before | own
    · exact first.fresh name bound before
    · exact .inr own

theorem note {name : String} (absent : object.methods.get? name = none) {bound : Value}
    (own : bound.OwnMethod ref) :
    object.Lasts ref { object with methods := object.methods.insert name bound } := by
  refine ⟨rfl, rfl, fun other known found => ?_, fun other known found => ?_⟩
  · rw [Table.get?_insert, if_neg]
    · exact found
    · rintro rfl
      cases absent.symm.trans found
  · rw [Table.get?_insert] at found
    split at found
    · cases found
      exact .inr own
    · exact .inl found

end Object.Lasts

/-- A later form of an iterator. It has been advanced at most. -/
def Cursor.Lasts (cursor later : Cursor) : Prop := ∃ count, later = Cursor.advance^[count] cursor

namespace Cursor.Lasts

variable {cursor middle later : Cursor}

theorem refl (cursor : Cursor) : cursor.Lasts cursor := ⟨0, rfl⟩

theorem advance (cursor : Cursor) : cursor.Lasts cursor.advance := ⟨1, rfl⟩

theorem trans (first : cursor.Lasts middle) (second : middle.Lasts later) : cursor.Lasts later := by
  obtain ⟨before, rfl⟩ := first
  obtain ⟨after, rfl⟩ := second
  exact ⟨after + before, (Function.iterate_add_apply ..).symm⟩

end Cursor.Lasts

namespace Store

/-- A later store: its instances and iterators are those of the earlier one in a later form, and maps are
still maps. -/
structure Remembers (before after : Store) : Prop where
  object : ∀ {ref : Ref} {object : Object}, before.cells[ref]? = some (.object object) →
    ∃ later, after.cells[ref]? = some (.object later) ∧ object.Lasts ref later
  map : ∀ {ref : Ref} {entries : Table Value}, before.cells[ref]? = some (.map entries) →
    ∃ later, after.cells[ref]? = some (.map later)
  iterator : ∀ {ref : Ref} {cursor : Cursor}, before.cells[ref]? = some (.iterator cursor) →
    ∃ later, after.cells[ref]? = some (.iterator later) ∧ cursor.Lasts later

theorem Kept.remembers {store later : Store} (kept : store.Kept later) : store.Remembers later :=
  ⟨fun found => ⟨_, kept _ _ found, .refl _ _⟩, fun found => ⟨_, kept _ _ found⟩,
    fun found => ⟨_, kept _ _ found, .refl _⟩⟩

namespace Remembers

variable {before middle after : Store}

theorem refl (store : Store) : store.Remembers store := (Kept.refl store).remembers

theorem ofCells (same : after.cells = before.cells) : before.Remembers after :=
  (Kept.ofCells same).remembers

theorem trans (first : before.Remembers middle) (second : middle.Remembers after) :
    before.Remembers after := by
  refine ⟨fun found => ?_, fun found => ?_, fun found => ?_⟩
  · obtain ⟨object, there, begun⟩ := first.object found
    obtain ⟨later, still, ended⟩ := second.object there
    exact ⟨later, still, begun.trans ended⟩
  · obtain ⟨entries, there⟩ := first.map found
    exact second.map there
  · obtain ⟨cursor, there, begun⟩ := first.iterator found
    obtain ⟨later, still, ended⟩ := second.iterator there
    exact ⟨later, still, begun.trans ended⟩

theorem fits {ref : Ref} (remembers : before.Remembers after) (fits : before.Fits (.object ref)) :
    after.Fits (.object ref) := by
  obtain ⟨later, there, lasts⟩ := remembers.object fits.object_cell
  obtain ⟨entries, stored⟩ := remembers.map fits.storage_cell
  exact .object later entries there (lasts.values ▸ stored)

end Remembers

variable (store : Store) (ref : Ref)

/-- Changing a cell where it is, instances at most by looking methods up and iterators by advancing. -/
theorem remembers_modify {change : Cell → Cell}
    (objects : ∀ object, store.cells[ref]? = some (.object object) →
      ∃ later, change (.object object) = .object later ∧ object.Lasts ref later)
    (maps : ∀ entries, ∃ later, change (.map entries) = .map later)
    (iterators : ∀ cursor, store.cells[ref]? = some (.iterator cursor) →
      ∃ later, change (.iterator cursor) = .iterator later ∧ cursor.Lasts later) :
    store.Remembers { store with cells := store.cells.modify ref change } := by
  refine ⟨fun {other object} found => ?_, fun {other entries} found => ?_, fun {other cursor} found => ?_⟩
  · simp only [Array.getElem?_modify, found, Option.map_some]
    split
    next same =>
      obtain ⟨later, changed, lasts⟩ := objects object (same ▸ found)
      exact ⟨later, congrArg some changed, same ▸ lasts⟩
    · exact ⟨object, rfl, .refl _ object⟩
  · simp only [Array.getElem?_modify, found, Option.map_some]
    split
    · obtain ⟨later, changed⟩ := maps entries
      exact ⟨later, congrArg some changed⟩
    · exact ⟨entries, rfl⟩
  · simp only [Array.getElem?_modify, found, Option.map_some]
    split
    next same =>
      obtain ⟨later, changed, lasts⟩ := iterators cursor (same ▸ found)
      exact ⟨later, congrArg some changed, lasts⟩
    · exact ⟨cursor, rfl, .refl cursor⟩

theorem remembers_setBusy (busy : Bool) : store.Remembers (store.setBusy ref busy) :=
  store.remembers_modify ref (fun object _ => ⟨object, rfl, .refl ref object⟩) (fun entries => ⟨entries, rfl⟩)
    fun cursor _ => ⟨cursor, rfl, .refl cursor⟩

theorem remembers_overwrite {cell : Cell} (objects : ∀ object later,
      store.cells[ref]? = some (.object object) → cell = .object later → object.Lasts ref later)
    (iterators : ∀ cursor later,
      store.cells[ref]? = some (.iterator cursor) → cell = .iterator later → cursor.Lasts later) :
    store.Remembers (store.overwrite ref cell) := by
  refine store.remembers_modify ref (fun object found => ?_) (fun entries => ?_) fun cursor found => ?_
  · cases cell with
    | object later => exact ⟨later, rfl, objects object later found rfl⟩
    | _ => exact ⟨object, rfl, .refl ref object⟩
  · cases cell with
    | map later => exact ⟨later, rfl⟩
    | _ => exact ⟨entries, rfl⟩
  · cases cell with
    | iterator later => exact ⟨later, rfl, iterators cursor later found rfl⟩
    | _ => exact ⟨cursor, rfl, .refl cursor⟩

end Store

open Store

/-- Filling a cell that an earlier store did not have keeps the cells of that store. -/
theorem Store.Kept.set {base later : Store} {ref : Ref} (kept : base.Kept later)
    (above : base.cells.size ≤ ref) (cell : Cell) : base.Kept (later.set ref cell) := by
  intro other old found
  have apart : ref ≠ other :=
    (Nat.ne_of_lt (Nat.lt_of_lt_of_le (lt_of_getElem?_eq_some found) above)).symm
  rw [Store.set, Array.getElem?_setIfInBounds_ne apart]
  exact kept other old found

namespace CopyM

/-- A copying computation that keeps all cells there are. -/
def Keeping {α : Type} (make : CopyM α) : Prop :=
  ∀ state : Copying, state.store.Kept (make.run state).2.store

theorem keeping_compositional : Compositional @Keeping where
  pure _ state := .refl state.store
  bind first next state := (first state).trans (next _ _)

theorem keeping_unlessCopied (ref : Ref) {make : CopyM Ref} (makes : Keeping make) :
    Keeping (unlessCopied ref make) := by
  have got : Keeping (get : CopyM Copying) := fun state => .refl state.store
  refine keeping_compositional.bind got fun state => ?_
  cases state.copies[ref]? with
  | some copied => exact keeping_compositional.pure copied
  | none => exact makes

/-- Copies are made in new cells, and only those are filled. -/
theorem keeping_structural : Structural @Keeping where
  composes := keeping_compositional
  read _ state := .refl state.store
  freshId _ := .ofCells rfl
  function _ state := .push state.store _
  once ref blank contents _ _ makes := by
    refine keeping_unlessCopied ref fun state => ?_
    have begun := Kept.push state.store blank
    exact (begun.trans (makes ((state.push blank).note ref state.store.cells.size))).set (Nat.le_refl _) _
  object copy ref makes := by
    refine keeping_unlessCopied ref fun state => ?_
    let source := state.store.object ref
    let opening := state.push (.map {})
    let made : Cell := .object { type := source.type, values := state.store.cells.size }
    have begun : state.store.Kept ((opening.push made).note ref opening.store.cells.size).store :=
      (Kept.push state.store _).trans (.push opening.store made)
    have filled := begun.trans (makes source ((opening.push made).note ref opening.store.cells.size))
    exact filled.set (Nat.le_refl _) _

end CopyM

namespace StoreM

def Remembering {α : Type} (action : StoreM α) : Prop :=
  ∀ store : Store, store.Remembers (left (action store))

theorem remembering_compositional : Compositional @Remembering where
  pure _ store := .refl store
  bind {_ _ first rest} begins next store := by
    have begun := begins store
    simp only [Bind.bind, EStateM.bind]
    cases done : first store with
    | ok value middle =>
      rw [done] at begun
      exact begun.trans (next value middle)
    | error fault after =>
      rw [done] at begun
      exact begun

theorem remembering_alloc (cell : Cell) : Remembering (alloc cell) :=
  fun store => (Kept.push store cell).remembers

/-- Only instances and iterators hold what must not be lost. -/
theorem remembering_write (ref : Ref) {cell : Cell} (fillable : cell.Fillable) :
    Remembering (write ref cell) := by
  refine fun store => store.remembers_overwrite ref (fun object later _ is => ?_) fun cursor later _ is => ?_
  · subst is
    exact fillable.elim
  · subst is
    exact fillable.elim

theorem remembering_changeElements (ref : Ref) (change : Array Value → Array Value) :
    Remembering (changeElements ref change) :=
  fun store => store.remembers_modify ref (fun object _ => ⟨object, rfl, .refl ref object⟩)
    (fun entries => ⟨entries, rfl⟩) fun cursor _ => ⟨cursor, rfl, .refl cursor⟩

theorem remembering_changeMembers (ref : Ref) (change : Table Ref → Table Ref) :
    Remembering (changeMembers ref change) :=
  fun store => store.remembers_modify ref (fun object _ => ⟨object, rfl, .refl ref object⟩)
    (fun entries => ⟨entries, rfl⟩) fun cursor _ => ⟨cursor, rfl, .refl cursor⟩

theorem remembering_iteratorNext (ref : Ref) : Remembering (iteratorNext ref) := by
  refine fun store => store.remembers_overwrite ref (fun object later _ is => nomatch is) ?_
  intro cursor later found is
  have view : store.cursor ref = cursor := by simp only [Store.cursor, found]
  cases is
  exact view ▸ .advance _

theorem remembering_copying {α : Type} {make : CopyM α} (keeps : CopyM.Keeping make) :
    Remembering (copying make) :=
  fun store => (keeps { store }).remembers

theorem remembering_get : Remembering (get : StoreM Store) := fun store => .refl store

theorem remembering_copy (value : Value) : Remembering (copy value) :=
  remembering_compositional.bind remembering_get fun _ =>
    remembering_copying (CopyM.keeping_structural.within _ value)

theorem remembering_copyTable (table : Table Value) : Remembering (copyTable table) :=
  remembering_compositional.bind remembering_get fun _ =>
    remembering_copying (CopyM.keeping_compositional.table_mapM table (CopyM.keeping_structural.within _))

end StoreM

end ScriptMachine
