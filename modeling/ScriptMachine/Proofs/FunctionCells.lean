import ScriptMachine.Value.Copy
import Mathlib.Logic.Basic

/-! Computations on the store and the functions in it. Whatever is computed, a function stays what it
is, its busy flag included, and a new one is not busy: only native-side calls touch that flag. -/

namespace ScriptMachine

/-- A property of computations that is kept when they are composed. -/
structure Compositional {m : Type → Type} [Monad m] (property : {α : Type} → m α → Prop) : Prop where
  pure : ∀ {α : Type} (value : α), property (Pure.pure value)
  bind : ∀ {α β : Type} {first : m α} {rest : α → m β}, property first →
    (∀ value, property (rest value)) → property (first >>= rest)

namespace Compositional

variable {α β : Type} {m : Type → Type} [Monad m] {property : {α : Type} → m α → Prop}

theorem list_foldlM (closed : Compositional @property) (items : List α) {body : β → α → m β}
    (each : ∀ sum item, property (body sum item)) (start : β) :
    property (items.foldlM body start) := by
  induction items generalizing start with
  | nil => exact closed.pure start
  | cons item rest ih =>
    rw [List.foldlM_cons]
    exact closed.bind (each start item) fun sum => ih sum

theorem list_forM (closed : Compositional @property) (items : List α) {body : α → m PUnit}
    (each : ∀ item, property (body item)) : property (items.forM body) := by
  induction items with
  | nil => exact closed.pure _
  | cons item rest ih => exact closed.bind (each item) fun _ => ih

variable [LawfulMonad m]

theorem map (closed : Compositional @property) (f : α → β) {action : m α} (holds : property action) :
    property (f <$> action) := by
  rw [map_eq_pure_bind]
  exact closed.bind holds fun value => closed.pure (f value)

theorem list_mapM (closed : Compositional @property) (items : List α) {body : α → m β}
    (each : ∀ item, property (body item)) : property (items.mapM body) := by
  induction items with
  | nil => exact closed.pure []
  | cons item rest ih =>
    rw [List.mapM_cons]
    refine closed.bind (each item) fun first => ?_
    exact closed.bind ih fun others => closed.pure (first :: others)

theorem array_mapM (closed : Compositional @property) (items : Array α) {body : α → m β}
    (each : ∀ item, property (body item)) : property (items.mapM body) := by
  rw [Array.mapM_eq_mapM_toList]
  exact closed.map _ (closed.list_mapM items.toList each)

theorem table_mapM (closed : Compositional @property) (table : Table α) {body : α → m β}
    (each : ∀ item, property (body item)) : property (table.mapM body) := by
  refine closed.bind (closed.list_mapM table.entries fun entry => ?_) fun entries => closed.pure _
  exact closed.bind (each entry.2) fun value => closed.pure (entry.1, value)

end Compositional

def Cell.Plain : Cell → Prop
  | .function _ => False
  | _ => True

/-- Not a function that a native-side call runs. -/
def Cell.Idle : Cell → Prop
  | .function callee => callee.busy = false
  | _ => True

theorem Cell.Plain.idle {cell : Cell} (plain : cell.Plain) : cell.Idle := by
  cases cell with
  | function function => exact plain.elim
  | _ => trivial

namespace Store

/-- The functions of a store are there as they were, and those added are not busy. -/
structure Spares (before after : Store) : Prop where
  size : before.cells.size ≤ after.cells.size
  kept : ∀ (ref : Ref) (function : Function), before.cells[ref]? = some (.function function) →
    after.cells[ref]? = some (.function function)
  fresh : ∀ (ref : Ref) (function : Function), after.cells[ref]? = some (.function function) →
    before.cells[ref]? = some (.function function) ∨
      before.cells.size ≤ ref ∧ function.busy = false

namespace Spares

variable {before middle after : Store}

theorem refl (store : Store) : store.Spares store :=
  ⟨Nat.le_refl _, fun _ _ found => found, fun _ _ found => .inl found⟩

theorem ofCells (same : after.cells = before.cells) : before.Spares after :=
  ⟨Nat.le_of_eq (by rw [same]), fun _ _ found => by rw [same]; exact found,
    fun _ _ found => .inl (by rw [← same]; exact found)⟩

theorem trans (first : before.Spares middle) (second : middle.Spares after) :
    before.Spares after := by
  refine ⟨Nat.le_trans first.size second.size, ?_, ?_⟩
  · exact fun ref function found => second.kept ref function (first.kept ref function found)
  · intro ref function found
    rcases second.fresh ref function found with known | ⟨above, idle⟩
    · exact first.fresh ref function known
    · exact .inr ⟨Nat.le_trans first.size above, idle⟩

theorem busy_eq (spares : before.Spares after) (ref : Ref) :
    (after.function ref).busy = (before.function ref).busy := by
  by_cases known : ∃ function, before.cells[ref]? = some (.function function)
  · obtain ⟨function, found⟩ := known
    simp only [Store.function, found, spares.kept ref function found]
  · have none : (before.function ref).busy = false := by
      unfold Store.function
      split
      next function found => exact absurd ⟨function, found⟩ known
      · rfl
    rw [none]
    unfold Store.function
    split
    next function found =>
      rcases spares.fresh ref function found with before | ⟨_, idle⟩
      · exact absurd ⟨function, before⟩ known
      · exact idle
    · rfl

theorem plain {ref : Ref} {cell : Cell} (spares : before.Spares after)
    (found : before.cells[ref]? = some cell) (plain : cell.Plain) :
    ∃ later, after.cells[ref]? = some later ∧ later.Plain := by
  have inside : ref < before.cells.size := (Array.getElem?_eq_some_iff.mp found).1
  obtain ⟨later, there⟩ : ∃ later, after.cells[ref]? = some later :=
    ⟨_, Array.getElem?_eq_getElem (Nat.lt_of_lt_of_le inside spares.size)⟩
  refine ⟨later, there, ?_⟩
  cases later with
  | function function =>
    rcases spares.fresh ref function there with known | ⟨above, _⟩
    · rw [found] at known
      cases known
      exact plain
    · exact absurd inside (Nat.not_lt.mpr above)
  | _ => trivial

end Spares

variable (store : Store)

theorem spares_push {cell : Cell} (idle : cell.Idle) :
    store.Spares { store with cells := store.cells.push cell } := by
  refine ⟨by simp, ?_, ?_⟩
  · intro ref function found
    have inside := (Array.getElem?_eq_some_iff.mp found).1
    simpa only [Array.getElem?_push, Nat.ne_of_lt inside, ↓reduceIte] using found
  · intro ref function found
    simp only [Array.getElem?_push] at found
    split at found
    next last =>
      cases found
      exact .inr ⟨Nat.le_of_eq last.symm, idle⟩
    · exact .inl found

/-- Changing a cell where it is does not touch functions, if the change leaves them alone and makes
none. -/
theorem spares_modify (ref : Ref) {change : Cell → Cell}
    (same : ∀ function, change (.function function) = .function function)
    (plain : ∀ cell : Cell, cell.Plain → (change cell).Plain) :
    store.Spares { store with cells := store.cells.modify ref change } := by
  refine ⟨by simp, ?_, ?_⟩
  · intro other function found
    simp only [Array.getElem?_modify]
    split
    · simp [found, same]
    · exact found
  · intro other function found
    simp only [Array.getElem?_modify] at found
    split at found
    · cases there : store.cells[other]? with
      | none => simp [there] at found
      | some cell =>
        simp only [there, Option.map_some, Option.some.injEq] at found
        cases cell with
        | function known =>
          rw [same] at found
          exact .inl (congrArg some found)
        | _ =>
          have kept : (Cell.function function).Plain := found ▸ plain _ (by trivial)
          exact kept.elim
    · exact .inl found

theorem spares_set {ref : Ref} {old cell : Cell} (found : store.cells[ref]? = some old)
    (before : old.Plain) (plain : cell.Plain) : store.Spares (store.set ref cell) := by
  refine ⟨by simp [set], ?_, ?_⟩
  · intro other function known
    simp only [set, Array.getElem?_setIfInBounds]
    split
    next same =>
      subst same
      rw [found] at known
      cases known
      exact before.elim
    · exact known
  · intro other function known
    simp only [set, Array.getElem?_setIfInBounds] at known
    split at known
    · split at known
      · cases known
        exact plain.elim
      · cases known
    · exact .inl known

end Store

def StoreM.left {α : Type} : EStateM.Result Fault Store α → Store
  | .ok _ store => store
  | .error _ store => store

def StoreM.Sparing {α : Type} (action : StoreM α) : Prop :=
  ∀ store : Store, store.Spares (StoreM.left (action store))

/-- Cells that are filled after they are made: neither functions nor instances nor iterators. -/
def Cell.Fillable : Cell → Prop
  | .function _ | .object _ | .iterator _ => False
  | _ => True

theorem Cell.Fillable.plain {cell : Cell} (fillable : cell.Fillable) : cell.Plain := by
  cases cell with
  | function function => exact fillable.elim
  | _ => trivial

namespace CopyM

/-- Properties that a copy has if they go through sequences and through the making of each cell, with
its contents copied in between. -/
structure Structural (holds : {α : Type} → CopyM α → Prop) : Prop where
  composes : Compositional @holds
  read : ∀ {α : Type} (view : Store → α), holds (read view)
  freshId : holds freshId
  function : ∀ source : Function, holds (alloc (.function { source with busy := false }))
  once : ∀ (ref : Ref) {blank : Cell} {contents : CopyM Cell}, blank.Fillable →
    (∀ state, (contents state).1.Fillable) → holds contents → holds (once ref blank contents)
  object : ∀ (copy : Value → CopyM Value) (ref : Ref),
    (∀ source : Object, holds (entries copy source.values)) → holds (object copy ref)

namespace Structural

variable {holds : {α : Type} → CopyM α → Prop} (closed : Structural @holds)
  {copy : Value → CopyM Value} (copies : ∀ value, holds (copy value))

include closed

theorem reads {α β : Type} (view : Store → α) {rest : α → CopyM β}
    (next : ∀ value, holds (rest value)) : holds (CopyM.read view >>= rest) :=
  closed.composes.bind (closed.read view) next

include copies

theorem elements (ref : Ref) : holds (CopyM.elements copy ref) :=
  closed.reads _ fun source =>
    closed.composes.bind (closed.composes.array_mapM source copies) fun _ => closed.composes.pure _

theorem entries (ref : Ref) : holds (CopyM.entries copy ref) :=
  closed.reads _ fun source =>
    closed.composes.bind (closed.composes.table_mapM source copies) fun _ => closed.composes.pure _

theorem entry (ref : Ref) : holds (CopyM.entry copy ref) := by
  refine closed.reads _ fun source => ?_
  refine closed.composes.bind (copies source.value) fun value => ?_
  exact closed.composes.bind (closed.composes.table_mapM source.tags copies) fun _ =>
    closed.composes.pure _

theorem property (ref : Ref) : holds (CopyM.property copy ref) := by
  have accessor (value : Option Value) : holds (value.mapM copy) := by
    cases value with
    | none => exact closed.composes.pure none
    | some value => exact closed.composes.map some (copies value)
  refine closed.reads _ fun source => ?_
  refine closed.composes.bind (accessor source.getter) fun getter => ?_
  refine closed.composes.bind (accessor source.setter) fun setter => ?_
  exact closed.composes.bind (closed.composes.table_mapM source.tags copies) fun _ =>
    closed.composes.pure _

theorem member (kind : MemberKind) (ref : Ref) : holds (CopyM.member copy kind ref) := by
  cases kind with
  | property => exact closed.once ref trivial (fun _ => trivial) (closed.property copies ref)
  | _ => exact closed.once ref trivial (fun _ => trivial) (closed.entry copies ref)

theorem members (kind : MemberKind) (ref : Ref) : holds (CopyM.members copy kind ref) :=
  closed.reads _ fun source =>
    closed.composes.bind (closed.composes.table_mapM source (closed.member copies kind)) fun _ =>
      closed.composes.pure _

theorem container (value : Value) : holds (CopyM.container copy value) := by
  cases value with
  | array handle ref =>
    have made : holds (CopyM.once ref (.array #[]) (CopyM.elements copy ref)) :=
      closed.once ref trivial (fun _ => trivial) (closed.elements copies ref)
    exact closed.composes.bind made fun copied => closed.composes.pure _
  | map handle ref =>
    have made : holds (CopyM.once ref (.map {}) (CopyM.entries copy ref)) :=
      closed.once ref trivial (fun _ => trivial) (closed.entries copies ref)
    exact closed.composes.bind made fun copied => closed.composes.pure _
  | object ref =>
    have made : holds (CopyM.object copy ref) :=
      closed.object copy ref fun source => closed.entries copies source.values
    exact closed.composes.bind made fun copied => closed.composes.pure _
  | member kind ref =>
    exact closed.composes.bind (closed.member copies kind ref) fun copied => closed.composes.pure _
  | members kind ref =>
    have made : holds (CopyM.once ref (.members kind {}) (CopyM.members copy kind ref)) :=
      closed.once ref trivial (fun _ => trivial) (closed.members copies kind ref)
    exact closed.composes.bind made fun copied => closed.composes.pure _
  | _ => exact closed.composes.pure _

theorem value (source : Value) : holds (CopyM.value copy source) := by
  induction source with
  | error id payload ih =>
    refine closed.composes.bind ih fun copied => ?_
    exact closed.composes.bind closed.freshId fun fresh => closed.composes.pure _
  | function ref =>
    refine closed.reads _ fun source => ?_
    exact closed.composes.bind (closed.function source) fun copied => closed.composes.pure _
  | bound id hold callee receiver ih _ =>
    refine closed.composes.bind ih fun copied => ?_
    exact closed.composes.bind closed.freshId fun fresh => closed.composes.pure _
  | _ => exact copies _

omit copies

theorem within (fuel : Nat) (source : Value) : holds (CopyM.within fuel source) := by
  induction fuel generalizing source with
  | zero => exact closed.composes.pure source
  | succ fuel ih => exact closed.value (closed.container ih) source

end Structural

end CopyM

def CopyM.Sparing {α : Type} (make : CopyM α) : Prop :=
  ∀ state : Copying, state.store.Spares (make state).2.store

namespace CopyM

theorem sparing_compositional : Compositional @Sparing where
  pure _ state := .refl state.store
  bind first next state := (first state).trans (next _ _)

theorem sparing_unlessCopied (ref : Ref) {make : CopyM Ref} (makes : Sparing make) :
    Sparing (unlessCopied ref make) := by
  have got : Sparing (get : CopyM Copying) := fun state => .refl state.store
  refine sparing_compositional.bind got fun state => ?_
  cases state.copies[ref]? with
  | some copied => exact sparing_compositional.pure copied
  | none => exact makes

/-- A cell that was made as something else than a function can be filled later. -/
theorem spares_fill {before middle after : Copying} {ref : Ref} {blank cell : Cell}
    (made : middle.store.cells[ref]? = some blank) (empty : blank.Plain) (plain : cell.Plain)
    (begun : before.store.Spares middle.store) (filled : middle.store.Spares after.store) :
    before.store.Spares (after.put ref cell).store := by
  obtain ⟨later, found, still⟩ := filled.plain made empty
  exact (begun.trans filled).trans (after.store.spares_set found still plain)

theorem sparing_once (ref : Ref) {blank : Cell} {contents : CopyM Cell} (makes : Sparing contents)
    (empty : blank.Plain) (plain : ∀ state, (contents state).1.Plain) :
    Sparing (once ref blank contents) := by
  refine sparing_unlessCopied ref fun state => ?_
  let noted := (state.push blank).note ref state.store.cells.size
  have made : noted.store.cells[state.store.cells.size]? = some blank := Array.getElem?_push_size
  exact spares_fill made empty (plain noted) (state.store.spares_push empty.idle) (makes noted)

/-- The storage of a copied instance is made before the instance and filled after it. -/
theorem sparing_newObject {copy : Value → CopyM Value} (ref : Ref) (source : Object)
    (makes : Sparing (entries copy source.values)) : Sparing (newObject copy ref source) := by
  intro state
  let stored := state.push (.map {})
  let noted := (stored.push (.object { type := source.type, values := state.store.cells.size })).note
    ref stored.store.cells.size
  have made : stored.store.cells[state.store.cells.size]? = some (.map {}) :=
    Array.getElem?_push_size
  have begun : state.store.Spares stored.store := state.store.spares_push (by trivial)
  have named : stored.store.Spares noted.store := stored.store.spares_push (by trivial)
  exact spares_fill made trivial trivial begun (named.trans (makes noted))

theorem sparing_structural : Structural @Sparing where
  composes := sparing_compositional
  read _ state := .refl state.store
  freshId _ := .ofCells rfl
  function _ state := state.store.spares_push rfl
  once ref _ _ empty filled makes :=
    sparing_once ref makes empty.plain fun state => (filled state).plain
  object _ ref makes := sparing_unlessCopied ref fun state =>
    sparing_newObject ref (state.store.object ref) (makes _) state

end CopyM

namespace StoreM

theorem sparing_compositional : Compositional @Sparing where
  pure _ store := .refl store
  bind {_ _ first rest} begins next store := by
    have begun := begins store
    simp only [Bind.bind, EStateM.bind]
    cases done : first store with
    | ok value middle =>
      rw [done] at begun
      exact begun.trans (next value middle)
    | error fault after =>
      rw [done] at begun
      exact begun

variable {α β : Type}

theorem Sparing.ok {action : StoreM α} (spares : Sparing action) {store after : Store} {value : α}
    (done : action store = .ok value after) : store.Spares after := by
  have left := spares store
  rw [done] at left
  exact left

theorem Sparing.bind {first : StoreM α} {rest : α → StoreM β} (begins : Sparing first)
    (next : ∀ value, Sparing (rest value)) : Sparing (first >>= rest) :=
  sparing_compositional.bind begins next

theorem sparing_pure (value : α) : Sparing (pure value) := sparing_compositional.pure value

theorem sparing_throw (fault : Fault) : Sparing (throw fault : StoreM α) := fun store => .refl store

theorem sparing_get : Sparing (get : StoreM Store) := fun store => .refl store

theorem sparing_alloc {cell : Cell} (idle : cell.Idle) : Sparing (alloc cell) :=
  fun store => store.spares_push idle

theorem sparing_freshId : Sparing freshId := fun _ => .ofCells rfl

theorem sparing_write (ref : Ref) {cell : Cell} (plain : cell.Plain) : Sparing (write ref cell) := by
  intro store
  refine store.spares_modify ref (fun _ => rfl) ?_
  intro old known
  split
  · exact plain
  · exact known

theorem sparing_changeElements (ref : Ref) (change : Array Value → Array Value) :
    Sparing (changeElements ref change) := by
  intro store
  refine store.spares_modify ref (fun _ => rfl) ?_
  intro old known
  cases old with
  | function function => exact known.elim
  | _ => trivial

theorem sparing_changeMembers (ref : Ref) (change : Table Ref → Table Ref) :
    Sparing (changeMembers ref change) := by
  intro store
  refine store.spares_modify ref (fun _ => rfl) ?_
  intro old known
  cases old with
  | function function => exact known.elim
  | _ => trivial

theorem sparing_newFunction (code : FunctionCode) (free : Array Ref) :
    Sparing (newFunction code free) :=
  sparing_alloc rfl

theorem sparing_copying {make : CopyM α} (makes : CopyM.Sparing make) : Sparing (copying make) :=
  fun store => makes { store }

theorem sparing_copy (value : Value) : Sparing (copy value) :=
  sparing_get.bind fun _ => sparing_copying (CopyM.sparing_structural.within _ value)

theorem sparing_copyTable (table : Table Value) : Sparing (copyTable table) :=
  sparing_get.bind fun _ =>
    sparing_copying (CopyM.sparing_compositional.table_mapM table (CopyM.sparing_structural.within _))

end StoreM

end ScriptMachine
