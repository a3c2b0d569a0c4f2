import ScriptMachine.Index
import ScriptMachine.Proofs.DeepCopy
import ScriptMachine.Proofs.FunctionCells

/-! What copies have in common. A copy is made once for each array, map and instance that lends out a
storage, so paths that meet in a storage meet in the copy too, unless they meet by way of two lenders: an
instance, and its storage held as a map. -/

namespace ScriptMachine

/-- What lends out a storage: an array or map the one it is, an instance the one of its values. -/
inductive Lender where
  | container (ref : Ref)
  | instance (ref : Ref)

namespace Copying

/-- The cells that a copy in progress uses: the copies, and the storages of copied instances. -/
inductive Uses (state : Copying) : Lender → Ref → Prop where
  | copy {ref copied : Ref} (noted : state.copies[ref]? = some copied) :
      Uses state (.container ref) copied
  | storage {ref copied : Ref} {object : Object} (noted : state.copies[ref]? = some copied)
      (made : state.store.cells[copied]? = some (.object object)) :
      Uses state (.instance ref) object.values

/-- A state in which no cell is used twice. -/
structure Apart (state : Copying) : Prop where
  below : ∀ {lender : Lender} {cell : Ref}, state.Uses lender cell → cell < state.store.cells.size
  unique : ∀ {lender other : Lender} {cell : Ref}, state.Uses lender cell → state.Uses other cell →
    lender = other

variable {state : Copying} {lender : Lender} {used : Ref}

theorem apart_initial (store : Store) : Apart { store } := by
  have nothing (lender : Lender) (cell : Ref) : ¬Uses { store } lender cell := by
    intro uses
    cases uses with
    | copy noted => cases noted.symm.trans Std.HashMap.getElem?_empty
    | storage noted => cases noted.symm.trans Std.HashMap.getElem?_empty
  exact ⟨fun uses => absurd uses (nothing _ _), fun uses => absurd uses (nothing _ _)⟩

/-- Cells that are used no more than before, in a store that has not become smaller. -/
theorem Apart.mono {after : Copying} (apart : state.Apart)
    (uses : ∀ lender cell, after.Uses lender cell → state.Uses lender cell)
    (size : state.store.cells.size ≤ after.store.cells.size) : after.Apart :=
  ⟨fun used => Nat.lt_of_lt_of_le (apart.below (uses _ _ used)) size,
    fun used other => apart.unique (uses _ _ used) (uses _ _ other)⟩

theorem Apart.put (apart : state.Apart) (target : Ref) {cell : Cell} (fillable : cell.Fillable) :
    (state.put target cell).Apart := by
  refine apart.mono ?_ (Nat.le_of_eq (Copying.size_put _ _ _).symm)
  intro lender used uses
  cases uses with
  | copy noted => exact .copy noted
  | @storage ref copied object noted made =>
    refine .storage noted ?_
    by_cases same : copied = target
    · have inside := Store.lt_of_getElem?_eq_some made
      rw [size_put, same] at inside
      rw [same, state.getElem?_put_self cell inside] at made
      cases made
      exact fillable.elim
    · rwa [state.getElem?_put_of_ne cell same] at made

theorem Uses.of_push (apart : state.Apart) {cell : Cell} (uses : (state.push cell).Uses lender used) :
    state.Uses lender used := by
  cases uses with
  | copy noted => exact .copy noted
  | @storage ref copied object noted made =>
    refine .storage noted ?_
    rwa [state.getElem?_push_of_lt cell (apart.below (.copy noted))] at made

theorem Apart.push (apart : state.Apart) (cell : Cell) : (state.push cell).Apart := by
  refine apart.mono (fun _ _ uses => uses.of_push apart) ?_
  rw [size_push]
  exact Nat.le_succ _

/-- A cell that has no use yet becomes a copy, and its storage, if it is an instance, that of one. -/
theorem Apart.note (apart : state.Apart) {ref copied : Ref} (inside : copied < state.store.cells.size)
    (fresh : ∀ lender, ¬state.Uses lender copied)
    (storage : ∀ object, state.store.cells[copied]? = some (.object object) →
      object.values < copied ∧ ∀ lender, ¬state.Uses lender object.values) :
    (state.note ref copied).Apart := by
  have known {lender : Lender} {used : Ref} (uses : (state.note ref copied).Uses lender used) :
      state.Uses lender used ∨ (lender = .container ref ∧ used = copied) ∨
        (lender = .instance ref ∧ ∃ object,
          state.store.cells[copied]? = some (.object object) ∧ used = object.values) := by
    cases uses with
    | @copy other used noted =>
      by_cases same : other = ref
      · rw [same, state.getElem?_note_self] at noted
        cases noted
        exact .inr (.inl ⟨by rw [same], rfl⟩)
      · rw [state.getElem?_note_of_ne same] at noted
        exact .inl (.copy noted)
    | @storage other twin object noted made =>
      by_cases same : other = ref
      · rw [same, state.getElem?_note_self] at noted
        cases noted
        exact .inr (.inr ⟨by rw [same], object, made, rfl⟩)
      · rw [state.getElem?_note_of_ne same] at noted
        exact .inl (.storage noted made)
  refine ⟨?_, ?_⟩
  · intro lender used uses
    show used < state.store.cells.size
    rcases known uses with before | ⟨-, rfl⟩ | ⟨-, object, made, rfl⟩
    · exact apart.below before
    · exact inside
    · exact Nat.lt_trans (storage object made).1 inside
  · intro lender other used uses others
    rcases known uses with before | ⟨rfl, rfl⟩ | ⟨rfl, object, made, rfl⟩
    · rcases known others with also | ⟨-, rfl⟩ | ⟨-, object, made, rfl⟩
      · exact apart.unique before also
      · exact absurd before (fresh lender)
      · exact absurd before ((storage object made).2 lender)
    · rcases known others with also | ⟨rfl, -⟩ | ⟨-, object, made, same⟩
      · exact absurd also (fresh other)
      · rfl
      · exact absurd same (Nat.ne_of_gt (storage object made).1)
    · rcases known others with also | ⟨-, same⟩ | ⟨rfl, -⟩
      · exact absurd also ((storage object made).2 other)
      · exact absurd same (Nat.ne_of_lt (storage object made).1)
      · rfl

/-- A copying computation that uses no cell twice. -/
def Separates {α : Type} (make : CopyM α) : Prop := ∀ state, Apart state → Apart (make.run state).2

theorem separates_compositional : Compositional @Separates where
  pure _ _ apart := apart
  bind first next state apart := next _ _ (first state apart)

theorem separates_unlessCopied (ref : Ref) {make : CopyM Ref} (separates : Separates make) :
    Separates (CopyM.unlessCopied ref make) := by
  have got : Separates (get : CopyM Copying) := fun state apart => apart
  refine separates_compositional.bind got fun state => ?_
  cases state.copies[ref]? with
  | some copied => exact separates_compositional.pure copied
  | none => exact separates

theorem separates_once (ref : Ref) {blank : Cell} {contents : CopyM Cell} (empty : blank.Fillable)
    (fillable : ∀ state, (contents state).1.Fillable) (separates : Separates contents) :
    Separates (CopyM.once ref blank contents) := by
  refine separates_unlessCopied ref fun state apart => ?_
  let copied := state.store.cells.size
  have opened : ((state.push blank).note ref copied).Apart := by
    refine (apart.push blank).note ?_ ?_ ?_
    · rw [size_push]
      exact Nat.lt_succ_self _
    · intro lender uses
      exact absurd (apart.below (uses.of_push apart)) (Nat.lt_irrefl _)
    · intro object made
      rw [show (state.push blank).store.cells[copied]? = some blank from Array.getElem?_push_size]
        at made
      cases made
      exact empty.elim
  exact (separates _ opened).put copied (fillable _)

theorem separates_newObject (copy : Value → CopyM Value) (ref : Ref) (source : Object)
    (separates : Separates (CopyM.entries copy source.values)) :
    Separates (CopyM.newObject copy ref source) := by
  intro state apart
  let storage := state.store.cells.size
  let opening := state.push (.map {})
  let copied := opening.store.cells.size
  let object : Object := { type := source.type, values := storage }
  have next : copied = storage + 1 := size_push state _
  have unused {cell : Ref} (above : storage ≤ cell) (lender : Lender) :
      ¬(opening.push (.object object)).Uses lender cell := by
    intro uses
    have before := (uses.of_push (apart.push _)).of_push apart
    exact absurd (apart.below before) (Nat.not_lt.mpr above)
  have opened : ((opening.push (.object object)).note ref copied).Apart := by
    refine ((apart.push _).push _).note ?_ (unused (by omega)) ?_
    · rw [size_push]
      exact Nat.lt_succ_self _
    · intro other made
      rw [show (opening.push (.object object)).store.cells[copied]? = some (.object object) from
        Array.getElem?_push_size] at made
      cases made
      exact ⟨by show storage < copied; omega, unused (Nat.le_refl _)⟩
  let start := (opening.push (.object object)).note ref copied
  have entered : ((CopyM.entries copy source.values).run start).2.Apart := separates start opened
  have filled : ((CopyM.entries copy source.values).run start).1.Fillable := trivial
  rw [CopyM.run_newObject rfl]
  exact entered.put storage filled

theorem separates_structural : CopyM.Structural @Separates where
  composes := separates_compositional
  read _ _ apart := apart
  freshId _ apart := apart.mono (fun _ _ uses => by cases uses with
    | copy noted => exact .copy noted
    | storage noted made => exact .storage noted made) (Nat.le_refl _)
  function _ _ apart := apart.push _
  once ref _ _ empty fillable separates := separates_once ref empty fillable separates
  object copy ref separates := separates_unlessCopied ref fun state =>
    separates_newObject copy ref (state.store.object ref) (separates _) state

end Copying

/-- A step of an access path: to an element of an array, or to what is under a key. -/
inductive Selector where
  | position (index : Int64)
  | key (name : String)

/-- Where an access path leads: to a value, or to an instance seen as the map of its values. -/
inductive Spot where
  | value (value : Value)
  | view (ref : Ref)

namespace Store

/-- Where a step leads from a spot, if it leads to something that is held there. -/
def select? (store : Store) : Spot → Selector → Option Spot
  | .value (.array _ ref), .position index =>
    (StoreM.position? index (store.elements ref).size).map fun position =>
      .value (store.elements ref)[position]
  | .value (.map _ ref), .key name => ((store.entries ref).get? name).map .value
  | .value (.object ref), .key name =>
    if name = mapKey then some (.view ref)
    else if name = "__type__" then some (.value (.type (store.object ref).type))
    else ((store.valuesOf ref).get? name).map .value
  | .view ref, .key name => ((store.valuesOf ref).get? name).map .value
  | _, _ => none

/-- Where an access path leads. -/
def spotAt? (store : Store) (spot : Spot) : List Selector → Option Spot
  | [] => some spot
  | selector :: path => (store.select? spot selector).bind fun next => store.spotAt? next path

def storage? (store : Store) : Spot → Option Ref
  | .value (.array _ ref) | .value (.map _ ref) => some ref
  | .value (.object ref) | .view ref => some (store.object ref).values
  | _ => none

def lender? : Spot → Option Lender
  | .value (.array _ ref) | .value (.map _ ref) => some (.container ref)
  | .value (.object ref) | .view ref => some (.instance ref)
  | _ => none

/-- The storage to which an access path leads from a value. -/
def storageAt? (store : Store) (value : Value) (path : List Selector) : Option Ref :=
  (store.spotAt? (.value value) path).bind store.storage?

/-- What lends out the storage to which an access path leads. -/
def lenderAt? (store : Store) (value : Value) (path : List Selector) : Option Lender :=
  (store.spotAt? (.value value) path).bind lender?

theorem map_position? {α β : Type} (index : Int64) (elements : Array α) (f : α → β) :
    ((StoreM.position? index elements.size).map fun position => f elements[position]) =
      if 0 ≤ index.toInt then elements[index.toInt.toNat]?.map f else none := by
  unfold StoreM.position?
  by_cases inside : 0 ≤ index.toInt ∧ index.toInt.toNat < elements.size
  · rw [dif_pos inside, if_pos inside.1, Array.getElem?_eq_getElem inside.2]
    rfl
  · rw [dif_neg inside]
    split
    next positive =>
      rw [Array.getElem?_eq_none (Nat.le_of_not_lt fun below => inside ⟨positive, below⟩)]
      rfl
    next => rfl

end Store

/-- The value whose contents lie behind a spot. -/
def Spot.owner : Spot → Value
  | .value held => held
  | .view ref => .object ref

/-- A spot and the one to which the same path leads in a copy. -/
inductive Spot.Image (copies : Copies) : Spot → Spot → Prop where
  | value {value copied : Value} (image : Value.Image copies value copied) :
      Image copies (.value value) (.value copied)
  | view {ref copied : Ref} (found : copies[ref]? = some copied) :
      Image copies (.view ref) (.view copied)

theorem optionRel_map {α β γ δ : Type} {related : α → β → Prop} {other : γ → δ → Prop} {f : α → γ}
    {g : β → δ} (implies : ∀ value twin, related value twin → other (f value) (g twin))
    {value : Option α} {twin : Option β} (both : Option.Rel related value twin) :
    Option.Rel other (value.map f) (twin.map g) := by
  cases both with
  | some holds => exact .some (implies _ _ holds)
  | none => exact .none

theorem optionRel_bind {α β γ δ : Type} {related : α → β → Prop} {other : γ → δ → Prop}
    {value : Option α} {twin : Option β} {f : α → Option γ} {g : β → Option δ}
    (both : Option.Rel related value twin)
    (next : ∀ first second, value = some first → related first second →
      Option.Rel other (f first) (g second)) :
    Option.Rel other (value.bind f) (twin.bind g) := by
  cases both with
  | some holds => exact next _ _ rfl holds
  | none => exact .none

theorem optionRel_getElem? {α β : Type} {related : α → β → Prop} {firsts : List α} {seconds : List β}
    (each : List.Forall₂ related firsts seconds) (position : Nat) :
    Option.Rel related firsts[position]? seconds[position]? := by
  induction each generalizing position with
  | nil => exact .none
  | cons head _ ih =>
    cases position with
    | zero => exact .some head
    | succ position => exact ih position

namespace Store

variable {store : Store}

theorem select?_of_shared {value : Value} (shared : value.Shared) (selector : Selector) :
    store.select? (.value value) selector = none := by
  cases value with
  | array | map | object => cases shared
  | _ => rfl

theorem storage?_of_shared {value : Value} (shared : value.Shared) :
    store.storage? (.value value) = none := by
  cases value with
  | array | map | object => cases shared
  | _ => rfl

theorem lender?_of_shared {value : Value} (shared : value.Shared) :
    lender? (.value value) = none := by
  cases value with
  | array | map | object => cases shared
  | _ => rfl

theorem grounded_type (ref : Ref) : store.Grounded (.type ref) := by
  intro held reached
  rcases reached.cases_head with rfl | ⟨next, holds, -⟩
  · exact .other fun ref occupies => by cases occupies
  · cases holds with
    | contains inside => cases inside

theorem grounded_select {spot next : Spot} {selector : Selector}
    (grounded : store.Grounded spot.owner) (leads : store.select? spot selector = some next) :
    store.Grounded next.owner := by
  unfold select? at leads
  split at leads
  next handle ref index =>
    obtain ⟨position, -, rfl⟩ := Option.map_eq_some_iff.mp leads
    exact grounded.of_holds (.contains (.element handle (Array.getElem_mem position.isLt)))
  next handle ref name =>
    obtain ⟨held, found, rfl⟩ := Option.map_eq_some_iff.mp leads
    exact grounded.of_holds (.contains (.entry handle name found))
  next ref name =>
    split at leads
    · cases leads
      exact grounded
    split at leads
    · cases leads
      exact grounded_type _
    · obtain ⟨held, found, rfl⟩ := Option.map_eq_some_iff.mp leads
      exact grounded.of_holds (.contains (.field name found))
  next ref name =>
    obtain ⟨held, found, rfl⟩ := Option.map_eq_some_iff.mp leads
    exact grounded.of_holds (.contains (.field name found))
  next => cases leads

theorem grounded_spotAt {spot last : Spot} (grounded : store.Grounded spot.owner)
    {path : List Selector} (leads : store.spotAt? spot path = some last) :
    store.Grounded last.owner := by
  induction path generalizing spot with
  | nil =>
    cases leads
    exact grounded
  | cons selector path ih =>
    obtain ⟨next, first, rest⟩ := Option.bind_eq_some_iff.mp leads
    exact ih (grounded_select grounded first) rest

end Store

namespace Copying.Completed

variable {source : Store} {state : Copying} (complete : state.Completed source)

include complete

/-- An instance answers for the map of its values and for its type before any name of its own. -/
theorem image_select {spot twin : Spot} (grounded : source.Grounded spot.owner)
    (image : spot.Image state.copies twin) (selector : Selector) :
    Option.Rel (Spot.Image state.copies) (source.select? spot selector)
      (state.store.select? twin selector) := by
  have fits := grounded.fits
  cases image with
  | value image =>
    cases image with
    | @array handle ref copied found =>
      cases selector with
      | key name => exact .none
      | position index =>
        simp only [Store.select?, Store.map_position? index _ Spot.value]
        split
        · simp only [← Array.getElem?_toList]
          have each := complete.elements_image found fits.array_cell
          exact optionRel_map (fun _ _ image => .value image) (optionRel_getElem? each _)
        · exact .none
    | @map handle ref copied found =>
      cases selector with
      | position index => exact .none
      | key name =>
        exact optionRel_map (fun _ _ image => .value image)
          ((complete.entries_image found fits.map_cell).optionRel name)
    | @object ref copied found =>
      cases selector with
      | position index => exact .none
      | key name =>
        obtain ⟨type, -, each⟩ := complete.object_image found fits.object_cell fits.storage_cell
        simp only [Store.select?, type]
        split
        · exact .some (.view found)
        split
        · exact .some (.value (.same trivial))
        · exact optionRel_map (fun _ _ image => .value image) (each.optionRel name)
    | same shared =>
      rw [Store.select?_of_shared shared, Store.select?_of_shared shared]
      exact .none
    | member | members | error | function | bound => exact .none
  | @view ref copied found =>
    cases selector with
    | position index => exact .none
    | key name =>
      have each := (complete.object_image found fits.object_cell fits.storage_cell).2.2
      exact optionRel_map (fun _ _ image => .value image) (each.optionRel name)

theorem image_spotAt {spot twin : Spot} (grounded : source.Grounded spot.owner)
    (image : spot.Image state.copies twin) (path : List Selector) :
    Option.Rel (Spot.Image state.copies) (source.spotAt? spot path)
      (state.store.spotAt? twin path) := by
  induction path generalizing spot twin with
  | nil => exact .some image
  | cons selector path ih =>
    exact optionRel_bind (complete.image_select grounded image selector) fun next other leads image =>
      ih (Store.grounded_select grounded leads) image

/-- The storage at a spot of a copy is the one that is used for what lends out the storage at the
spot of the source. -/
theorem uses_of_image {spot twin : Spot} (grounded : source.Grounded spot.owner)
    (image : spot.Image state.copies twin) :
    Option.Rel state.Uses (Store.lender? spot) (state.store.storage? twin) := by
  have storageOf {ref copied : Ref} (grounded : source.Grounded (.object ref))
      (found : state.copies[ref]? = some copied) :
      state.Uses (.instance ref) (state.store.object copied).values := by
    cases (complete.made ref copied found).2 with
    | cell same made image =>
      cases grounded.fits.object_cell.symm.trans same
      cases image
    | object same held made fresh filled each =>
      rw [Store.object_eq made]
      exact .storage found made
  cases image with
  | value image =>
    cases image with
    | array handle found => exact .some (.copy found)
    | map handle found => exact .some (.copy found)
    | object found => exact .some (storageOf grounded found)
    | same shared =>
      rw [Store.lender?_of_shared shared, Store.storage?_of_shared shared]
      exact .none
    | member | members | error | function | bound => exact .none
  | view found => exact .some (storageOf grounded found)

theorem uses_storageAt {value copied : Value} (grounded : source.Grounded value)
    (image : Value.Image state.copies value copied) (path : List Selector) :
    Option.Rel state.Uses (source.lenderAt? value path) (state.store.storageAt? copied path) := by
  have here : source.Grounded (Spot.value value).owner := grounded
  exact optionRel_bind (complete.image_spotAt here (.value image) path) fun spot twin leads image =>
    complete.uses_of_image (Store.grounded_spotAt here leads) image

end Copying.Completed

theorem Copying.Uses.cell_eq {state : Copying} {lender : Lender} {cell other : Ref}
    (uses : state.Uses lender cell) (also : state.Uses lender other) : cell = other := by
  cases uses with
  | copy noted =>
    cases also with
    | copy again => exact Option.some.inj (noted.symm.trans again)
  | storage noted made =>
    cases also with
    | storage again there =>
      cases noted.symm.trans again
      cases made.symm.trans there
      rfl

def Store.lent (store : Store) : Lender → Ref
  | .container ref => ref
  | .instance ref => (store.object ref).values

theorem Store.storageAt?_eq (store : Store) (value : Value) (path : List Selector) :
    store.storageAt? value path = (store.lenderAt? value path).map store.lent := by
  have spots (spot : Spot) : store.storage? spot = (lender? spot).map store.lent := by
    unfold storage? lender?
    split <;> rfl
  simp only [storageAt?, lenderAt?, Option.map_bind, Function.comp_def, ← spots]

/-- A copy uses no cell twice, and paths lead to the storages it uses for what lends out those of the
source. -/
theorem StoreM.copy_separates {store : Store} {value : Value} (grounded : store.Grounded value) :
    ∃ (copied : Value) (state : Copying), (copy value).run store = .ok copied state.store ∧
      state.Apart ∧ ∀ path, Option.Rel state.Uses (store.lenderAt? value path)
        (state.store.storageAt? copied path) := by
  let enough := store.cells.size + 1
  have few : uncopied store.cells.size ∅ < enough := Nat.lt_succ_of_le (uncopied_le_size _ _)
  obtain ⟨grows, image⟩ :=
    CopyM.makes_within enough value grounded { store } ⟨Nat.le_refl _, fun _ _ => rfl⟩ few
  have apart := Copying.separates_structural.within enough value { store } (Copying.apart_initial store)
  exact ⟨_, _, rfl, apart, (Copying.Completed.of_grows grows).uses_storageAt grounded image⟩

/-- Two paths lead to one storage of a copy exactly if one lender is at the end of both in the source.
That is no less than one storage there. -/
theorem Copying.Apart.storages_eq_iff {store : Store} {state : Copying} {value copied : Value}
    (apart : state.Apart)
    (uses : ∀ path, Option.Rel state.Uses (store.lenderAt? value path)
      (state.store.storageAt? copied path)) (first second : List Selector) :
    state.store.storageAt? copied first = state.store.storageAt? copied second ↔
      store.lenderAt? value first = store.lenderAt? value second := by
  have one := uses first
  have two := uses second
  generalize store.lenderAt? value first = lender, store.lenderAt? value second = other,
    state.store.storageAt? copied first = cell, state.store.storageAt? copied second = twin at one two ⊢
  cases one with
  | none =>
    cases two with
    | none => exact iff_of_true rfl rfl
    | some also => exact iff_of_false nofun nofun
  | some used =>
    cases two with
    | none => exact iff_of_false nofun nofun
    | some also =>
      rw [Option.some_inj, Option.some_inj]
      constructor
      · rintro rfl
        exact apart.unique used also
      · rintro rfl
        exact used.cell_eq also

/-- Paths that lead to storages lead to storages of a copy too, and to one storage exactly if they lead
to one storage of the source that one array, map or instance lends out at both ends. -/
theorem StoreM.copy_keeps_lenders {store : Store} {value : Value} (grounded : store.Grounded value) :
    ∃ copied after, (copy value).run store = .ok copied after ∧
      (∀ path, (after.storageAt? copied path).isSome = (store.storageAt? value path).isSome) ∧
      ∀ first second, after.storageAt? copied first = after.storageAt? copied second ↔
        store.storageAt? value first = store.storageAt? value second ∧
          store.lenderAt? value first = store.lenderAt? value second := by
  obtain ⟨copied, state, run, apart, uses⟩ := copy_separates grounded
  refine ⟨copied, state.store, run, fun path => ?_, fun first second => ?_⟩
  · rw [store.storageAt?_eq, Option.isSome_map, isSome_eq_of_optionRel (uses path)]
  · rw [apart.storages_eq_iff uses, store.storageAt?_eq, store.storageAt?_eq]
    constructor
    · intro same
      exact ⟨congrArg _ same, same⟩
    · exact And.right

/-- An array that holds an instance and, as a map, the storage of the instance. -/
def viewed : Store where
  cells := #[.array #[.object 1, .map .writable 2], .object { type := 3, values := 2 },
    .map (Table.empty.insert "x" (.int 1)),
    .type { name := "Point", fields := 4, methods := 5, properties := 6 },
    .members .field ∅, .members .method ∅, .members .property ∅]

theorem viewed_reached {held : Value} (reached : viewed.Reaches (.array .writable 0) held) :
    held ∈ [.array .writable 0, .object 1, .map .writable 2, .int 1] := by
  induction reached with
  | refl => exact .head _
  | tail _ holds ih =>
    simp only [List.mem_cons, List.not_mem_nil, or_false] at ih ⊢
    rcases ih with rfl | rfl | rfl | rfl
    · cases holds with
      | contains inside =>
        cases inside with
        | element _ member =>
          simp only [viewed, Store.elements, List.getElem?_toArray, List.getElem?_cons_zero] at member
          grind
    · cases holds with
      | contains inside =>
        cases inside with
        | field key found =>
          simp only [viewed, Store.valuesOf, Store.object, Store.entries, List.getElem?_toArray,
            List.getElem?_cons_zero, List.getElem?_cons_succ, Table.get?_insert, Table.get?_empty]
            at found
          grind
    · cases holds with
      | contains inside =>
        cases inside with
        | entry _ key found =>
          simp only [viewed, Store.entries, List.getElem?_toArray, List.getElem?_cons_zero,
            List.getElem?_cons_succ, Table.get?_insert, Table.get?_empty] at found
          grind
    · cases holds with
      | contains inside => cases inside

theorem viewed_grounded : viewed.Grounded (.array .writable 0) := by
  intro held reached
  have known := viewed_reached reached
  simp only [List.mem_cons, List.not_mem_nil, or_false] at known
  rcases known with rfl | rfl | rfl | rfl
  · exact .array _ _ rfl
  · exact .object _ _ rfl rfl
  · exact .map _ _ rfl
  · exact .other fun ref occupies => by cases occupies

theorem StoreM.copy_keeps_lenders_viewed :
    viewed.Grounded (.array .writable 0) ∧
    ∃ copied after, (copy (.array .writable 0)).run viewed = .ok copied after ∧
      after.storageAt? copied [.position 0] = after.storageAt? copied [.position 0, .key mapKey] ∧
      after.storageAt? copied [.position 0] ≠ after.storageAt? copied [.position 1] := by
  obtain ⟨copied, after, run, -, paths⟩ := copy_keeps_lenders viewed_grounded
  refine ⟨viewed_grounded, copied, after, run, (paths _ _).mpr ⟨rfl, rfl⟩, ?_⟩
  intro same
  cases ((paths _ _).mp same).2

/-- The storage that an instance and a map share is copied for each of them. -/
theorem StoreM.copy_splits_view :
    viewed.storageAt? (.array .writable 0) [.position 0] = some 2 ∧
    viewed.storageAt? (.array .writable 0) [.position 1] = some 2 ∧
    ∃ copied after, (copy (.array .writable 0)).run viewed = .ok copied after ∧
      after.storageAt? copied [.position 0] ≠ after.storageAt? copied [.position 1] := by
  obtain ⟨copied, state, run, apart, uses⟩ := copy_separates viewed_grounded
  refine ⟨rfl, rfl, copied, state.store, run, fun same => ?_⟩
  cases (apart.storages_eq_iff uses _ _).mp same

end ScriptMachine
