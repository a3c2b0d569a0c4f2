import ScriptMachine.Proofs.DeepCopy
import ScriptMachine.Proofs.GrowingStores

/-! Deep copies of values and tables that are made on the way from one store to a later one. They are
built of new cells only. -/

namespace ScriptMachine

open Store

theorem Value.Image.isMethodConvertible_eq {copies : Copies} {value copied : Value}
    (image : Value.Image copies value copied) :
    copied.isMethodConvertible = value.isMethodConvertible := by
  cases image <;> rfl

namespace Copying.Completed

variable {source : Store} {state : Copying} {value copied : Value} (complete : state.Completed source)

include complete

theorem kept_store : source.Kept state.store :=
  fun _ _ found => complete.found_of_found found

theorem fits_image (fits : source.Fits value) (image : Value.Image state.copies value copied) :
    state.store.Fits copied := by
  cases image with
  | array handle found =>
    obtain ⟨contents, made, image⟩ := complete.contents found fits.array_cell (by simp)
    cases image with
    | array => exact .array _ _ made
  | map handle found =>
    obtain ⟨contents, made, image⟩ := complete.contents found fits.map_cell (by simp)
    cases image with
    | map => exact .map _ _ made
  | @object ref copied found =>
    cases (complete.made ref copied found).2 with
    | cell same made image =>
      cases fits.object_cell.symm.trans same
      cases image
    | object same held made fresh filled each => exact .object _ _ made filled
  | member kind found =>
    cases fits with
    | property property cell =>
      obtain ⟨contents, made, image⟩ := complete.contents found cell (by simp)
      cases image with
      | property => exact .property _ made
    | member plain entry cell =>
      obtain ⟨contents, made, image⟩ := complete.contents found cell (by simp)
      cases image with
      | entry => exact .member plain _ made
    | other nowhere => exact absurd (.member kind _) (nowhere _)
  | members kind found =>
    obtain ⟨contents, made, image⟩ := complete.contents found fits.members_cell (by simp)
    cases image with
    | members => exact .members kind _ made
  | error => exact .other fun _ occupies => by cases occupies
  | function => exact .other fun _ occupies => by cases occupies
  | bound => exact .other fun _ occupies => by cases occupies
  | same shared => exact .other fun _ occupies => by cases occupies <;> cases shared

theorem since_image (grounded : source.Grounded value)
    (image : Value.Image state.copies value copied) :
    state.store.Since source.cells.size copied := by
  refine ⟨?_, ?_⟩
  · intro held reached
    obtain ⟨origin, before, image⟩ := complete.reaches_image grounded image reached
    exact complete.fits_image (grounded origin before) image
  · intro held reached ref occupies
    obtain ⟨origin, before, image⟩ := complete.reaches_image grounded image reached
    exact complete.fresh_of_image (grounded origin before) image occupies

end Copying.Completed

/-- The copy of a table comes to its end, and has the copies of the table's values. -/
theorem StoreM.copyTable_completes {store : Store} {table : Table Value}
    (grounded : table.All store.Grounded) :
    ∃ (copied : Table Value) (state : Copying), (copyTable table).run store = .ok copied state.store ∧
      state.Completed store ∧ Table.Agree (Value.Image state.copies) table copied := by
  have makes := CopyM.makes_table_mapM CopyM.lasting_image table fun name value found =>
    CopyM.makes_within (store.cells.size + 1) value (grounded name value found)
  have few : uncopied store.cells.size ∅ < store.cells.size + 1 :=
    Nat.lt_succ_of_le (uncopied_le_size _ _)
  obtain ⟨grows, agree⟩ := makes { store } ⟨Nat.le_refl _, fun _ _ => rfl⟩ few
  exact ⟨_, _, rfl, .of_grows grows, agree⟩

namespace Store

variable {base middle later further : Store}

/-- A deep copy that was made on the way from one store to another and is there as it was made. -/
def DeepCopy (base later : Store) (value copied : Value) : Prop :=
  ∃ before after, base.Kept before ∧ (StoreM.copy value).run before = .ok copied after ∧
    after.Kept later

/-- The deep copies of a table's values, with what they share copied once. -/
def DeepCopies (base later : Store) (table copied : Table Value) : Prop :=
  ∃ before after, base.Kept before ∧ (StoreM.copyTable table).run before = .ok copied after ∧
    after.Kept later

namespace DeepCopy

variable {value copied : Value}

theorem lasting (copy : DeepCopy base later value copied) (kept : later.Kept further) :
    DeepCopy base further value copied := by
  obtain ⟨before, after, begun, run, since⟩ := copy
  exact ⟨before, after, begun, run, since.trans kept⟩

theorem since_earlier (copy : DeepCopy middle later value copied) (kept : base.Kept middle) :
    DeepCopy base later value copied := by
  obtain ⟨before, after, begun, run, since⟩ := copy
  exact ⟨before, after, kept.trans begun, run, since⟩

variable (copy : DeepCopy base later value copied) (grounded : base.Grounded value)

include copy grounded

theorem since : later.Since base.cells.size copied := by
  obtain ⟨before, after, begun, run, since⟩ := copy
  obtain ⟨result, state, there, complete, image⟩ := StoreM.copy_completes (begun.grounded grounded)
  cases run.symm.trans there
  exact ((complete.since_image (begun.grounded grounded) image).mono begun.size_le).kept since

theorem isMethodConvertible_eq : copied.isMethodConvertible = value.isMethodConvertible := by
  obtain ⟨before, after, begun, run, since⟩ := copy
  obtain ⟨result, state, there, complete, image⟩ := StoreM.copy_completes (begun.grounded grounded)
  cases run.symm.trans there
  exact image.isMethodConvertible_eq

end DeepCopy

namespace DeepCopies

variable {table copied : Table Value}

theorem lasting (copies : DeepCopies base later table copied) (kept : later.Kept further) :
    DeepCopies base further table copied := by
  obtain ⟨before, after, begun, run, since⟩ := copies
  exact ⟨before, after, begun, run, since.trans kept⟩

theorem since_earlier (copies : DeepCopies middle later table copied) (kept : base.Kept middle) :
    DeepCopies base later table copied := by
  obtain ⟨before, after, begun, run, since⟩ := copies
  exact ⟨before, after, kept.trans begun, run, since⟩

variable (copies : DeepCopies base later table copied) (grounded : table.All base.Grounded)

include copies grounded

theorem since : Table.Agree (fun _ copied => later.Since base.cells.size copied) table copied := by
  obtain ⟨before, after, begun, run, since⟩ := copies
  have lifted : table.All before.Grounded := fun name value found =>
    begun.grounded (grounded name value found)
  obtain ⟨result, state, there, complete, agree⟩ := StoreM.copyTable_completes lifted
  cases run.symm.trans there
  refine ⟨agree.keys, fun name value other found held => ?_⟩
  have image := agree.values name value other found held
  exact ((complete.since_image (lifted name value found) image).mono begun.size_le).kept since

end DeepCopies

end Store

namespace StoreM

variable {fails : Prop} {inv : Store → Prop} {base : Store}

/-- An invariant that new maps and deep copies keep. -/
structure Tolerant (inv : Store → Prop) : Prop where
  map : ∀ (store : Store) (entries : Table Value), inv store →
    inv { store with cells := store.cells.push (.map entries) }
  copy : ∀ {store later : Store} {value copied : Value}, store.Grounded value →
    (copy value).run store = .ok copied later → inv store → inv later
  copyTable : ∀ {store later : Store} {table copied : Table Value}, table.All store.Grounded →
    (copyTable table).run store = .ok copied later → inv store → inv later

variable (tolerant : Tolerant inv)

include tolerant

theorem builds_copy {value : Value} (grounded : base.Grounded value) :
    Builds fails inv base (copy value) fun later copied => base.DeepCopy later value copied := by
  intro store kept valid
  have lifted := kept.grounded grounded
  obtain ⟨copied, state, run, complete, -⟩ := copy_completes lifted
  rw [run]
  exact ⟨complete.kept_store, tolerant.copy lifted run valid, store, state.store, kept, run,
    .refl state.store⟩

theorem builds_copyTable {table : Table Value} (grounded : table.All base.Grounded) :
    Builds fails inv base (copyTable table) fun later copied =>
      base.DeepCopies later table copied := by
  intro store kept valid
  have lifted : table.All store.Grounded := fun name value found =>
    kept.grounded (grounded name value found)
  obtain ⟨copied, state, run, complete, -⟩ := copyTable_completes lifted
  rw [run]
  exact ⟨complete.kept_store, tolerant.copyTable lifted run valid, store, state.store, kept, run,
    .refl state.store⟩

end StoreM

end ScriptMachine
