import ScriptMachine.Proofs.CopyLogic

/-! How deep copying nests. Each container that a copy goes into is noted on the way in, so a copy
goes no deeper than there are cells: what would be done below that depth makes no difference. -/

namespace ScriptMachine

/-- A recursive definition followed for some rounds, with `beyond` in place of all further ones. -/
def unrolled {α β : Type} (scheme : (α → β) → α → β) (beyond : α → β) : Nat → α → β
  | 0 => beyond
  | rounds + 1 => scheme (unrolled scheme beyond rounds)

theorem unrolled_add {α β : Type} (scheme : (α → β) → α → β) (beyond : α → β) (rounds more : Nat) :
    unrolled scheme beyond (rounds + more) = unrolled scheme (unrolled scheme beyond more) rounds := by
  induction rounds with
  | zero => rw [Nat.zero_add, unrolled]
  | succ rounds ih => rw [Nat.succ_add, unrolled, unrolled, ih]

namespace CopyM

/-- One round of a copy: `copy` copies what the containers at hand hold. -/
def round (copy : Value → CopyM Value) : Value → CopyM Value := value (container copy)

theorem within_eq_unrolled (fuel : Nat) : within fuel = unrolled round pure fuel := by
  induction fuel with
  | zero => rfl
  | succ fuel ih => rw [within, unrolled, ih, round]

variable {α β : Type} {source : Store} {bound : Nat}

/-- Computations that do the same over the source store as long as fewer than `bound` cells are left
to copy, and leave no more to copy. -/
def Alike (source : Store) (bound : Nat) (act other : CopyM α) : Prop :=
  ∀ before, before.Over source → uncopied source.cells.size before.copies < bound →
    act.run before = other.run before ∧ (act.run before).2.Over source ∧
      uncopied source.cells.size (act.run before).2.copies ≤
        uncopied source.cells.size before.copies

namespace Alike

theorem pure (value : α) : Alike source bound (Pure.pure value) (Pure.pure value) :=
  fun _ atop _ => ⟨rfl, atop, Nat.le_refl _⟩

theorem sooner {act other : CopyM α} (alike : Alike source (bound + 1) act other) :
    Alike source bound act other :=
  fun before atop few => alike before atop (Nat.lt_succ_of_lt few)

theorem bind {act other : CopyM α} {rest last : α → CopyM β} (first : Alike source bound act other)
    (next : ∀ value, Alike source bound (rest value) (last value)) :
    Alike source bound (act >>= rest) (other >>= last) := by
  intro before atop few
  obtain ⟨same, begun, fewer⟩ := first before atop few
  obtain ⟨equal, ended, fewest⟩ :=
    next (act.run before).1 (act.run before).2 begun (Nat.lt_of_le_of_lt fewer few)
  refine ⟨?_, ended, Nat.le_trans fewest fewer⟩
  rw [StateT.run_bind, StateT.run_bind, ← same]
  exact equal

theorem reading {view : Store → α} (result : α) {rest last : α → CopyM β}
    (reads : ∀ before : Copying, before.Over source → view before.store = result)
    (next : Alike source bound (rest result) (last result)) :
    Alike source bound (read view >>= rest) (read view >>= last) := by
  intro before atop few
  obtain ⟨same, ended, fewer⟩ := next before atop few
  have run (rest : α → CopyM β) : (read view >>= rest).run before = (rest result).run before := by
    rw [← reads before atop]
    rfl
  rw [run rest, run last]
  exact ⟨same, ended, fewer⟩

end Alike

theorem alike_read (view : Store → α) : Alike source bound (read view) (read view) :=
  fun _ atop _ => ⟨rfl, atop, Nat.le_refl _⟩

theorem alike_freshId : Alike source bound freshId freshId :=
  fun _ atop _ => ⟨rfl, ⟨atop.size, atop.kept⟩, Nat.le_refl _⟩

theorem alike_alloc (cell : Cell) : Alike source bound (alloc cell) (alloc cell) :=
  fun before atop _ => ⟨rfl, atop.grows (.push source before cell), Nat.le_refl _⟩

section Collections

variable {copy other : α → CopyM β}

theorem alike_mapM (values : List α)
    (each : ∀ value ∈ values, Alike source bound (copy value) (other value)) :
    Alike source bound (values.mapM copy) (values.mapM other) := by
  induction values with
  | nil => exact .pure []
  | cons value rest ih =>
    rw [List.mapM_cons, List.mapM_cons]
    refine (each value (.head _)).bind fun copied => ?_
    refine (ih fun later member => each later (.tail _ member)).bind fun others => ?_
    exact .pure (copied :: others)

theorem alike_array_mapM (values : Array α)
    (each : ∀ value ∈ values, Alike source bound (copy value) (other value)) :
    Alike source bound (values.mapM copy) (values.mapM other) := by
  rw [Array.mapM_eq_mapM_toList, Array.mapM_eq_mapM_toList, ← bind_pure_comp, ← bind_pure_comp]
  refine (alike_mapM values.toList fun value member => each value (by simpa using member)).bind ?_
  exact fun copied => .pure copied.toArray

theorem alike_option_mapM (option : Option α)
    (each : ∀ value, option = some value → Alike source bound (copy value) (other value)) :
    Alike source bound (option.mapM copy) (option.mapM other) := by
  cases option with
  | none => exact .pure none
  | some value =>
    rw [Option.mapM_some, Option.mapM_some, ← bind_pure_comp, ← bind_pure_comp]
    exact (each value rfl).bind fun copied => .pure (some copied)

theorem alike_table_mapM (table : Table α)
    (each : ∀ key value, table.get? key = some value →
      Alike source bound (copy value) (other value)) :
    Alike source bound (table.mapM copy) (table.mapM other) := by
  unfold Table.mapM
  refine (alike_mapM table.entries fun entry member => ?_).bind fun pairs => .pure _
  have held := (table.mem_entries_iff entry.1 entry.2).mp member
  exact (each entry.1 entry.2 held).bind fun copied => .pure (entry.1, copied)

end Collections

section Containers

variable {copy other : Value → CopyM Value} {ref : Ref}

theorem alike_unlessCopied {make remake : CopyM Ref}
    (first : ∀ before : Copying, before.Over source →
      uncopied source.cells.size before.copies < bound → before.copies[ref]? = none →
      make.run before = remake.run before ∧ (make.run before).2.Over source ∧
        uncopied source.cells.size (make.run before).2.copies ≤
          uncopied source.cells.size before.copies) :
    Alike source bound (unlessCopied ref make) (unlessCopied ref remake) := by
  intro before atop few
  cases found : before.copies[ref]? with
  | some copied =>
    rw [run_unlessCopied_of_some found make, run_unlessCopied_of_some found remake]
    exact ⟨rfl, atop, Nat.le_refl _⟩
  | none =>
    rw [run_unlessCopied_of_none found make, run_unlessCopied_of_none found remake]
    exact first before atop few found

theorem over_put {state : Copying} {target : Ref} (atop : state.Over source)
    (above : source.cells.size ≤ target) (cell : Cell) : (state.put target cell).Over source := by
  refine ⟨?_, fun ref inside => ?_⟩
  · rw [Copying.size_put]
    exact atop.size
  · rw [state.getElem?_put_of_ne cell (Nat.ne_of_lt (Nat.lt_of_lt_of_le inside above))]
    exact atop.kept ref inside

/-- A container of the source is noted before its contents are copied, so that one cell fewer is left
for them. -/
theorem alike_once {blank : Cell} {contents others : CopyM Cell} (inside : ref < source.cells.size)
    (alike : Alike source bound contents others) :
    Alike source (bound + 1) (once ref blank contents) (once ref blank others) := by
  refine alike_unlessCopied fun before atop few absent => ?_
  let copied := before.store.cells.size
  let start := (before.push blank).note ref copied
  have less : uncopied source.cells.size start.copies < uncopied source.cells.size before.copies :=
    uncopied_note_lt copied inside absent
  have opened : start.Over source := (atop.grows (.push source before blank)).note ref copied
  obtain ⟨same, ended, fewer⟩ := alike start opened (by omega)
  have run (contents : CopyM Cell) : (do
      let copied ← alloc blank
      remember ref copied
      fill copied (← contents)
      return copied : CopyM Ref).run before =
        (copied, (contents.run start).2.put copied (contents.run start).1) := rfl
  rw [run contents, run others, ← same]
  refine ⟨rfl, over_put ended atop.size _, ?_⟩
  exact Nat.le_trans fewer (Nat.le_of_lt less)

theorem alike_elements {elements : Array Value} (cell : source.cells[ref]? = some (.array elements))
    (each : ∀ value ∈ elements, Alike source bound (copy value) (other value)) :
    Alike source bound (CopyM.elements copy ref) (CopyM.elements other ref) := by
  refine Alike.reading elements (fun before atop => ?_) ?_
  · exact Store.elements_eq (atop.found cell)
  · exact (alike_array_mapM elements each).bind fun copied => .pure _

theorem alike_entries {values : Table Value} (cell : source.cells[ref]? = some (.map values))
    (each : ∀ key value, values.get? key = some value →
      Alike source bound (copy value) (other value)) :
    Alike source bound (entries copy ref) (entries other ref) := by
  refine Alike.reading values (fun before atop => ?_) ?_
  · exact Store.entries_eq (atop.found cell)
  · exact (alike_table_mapM values each).bind fun copied => .pure _

theorem alike_entry {entry : Entry} (cell : source.cells[ref]? = some (.entry entry))
    (value : Alike source bound (copy entry.value) (other entry.value))
    (tags : ∀ key tag, entry.tags.get? key = some tag → Alike source bound (copy tag) (other tag)) :
    Alike source bound (CopyM.entry copy ref) (CopyM.entry other ref) := by
  refine Alike.reading entry (fun before atop => ?_) ?_
  · exact Store.entry_eq (atop.found cell)
  · exact value.bind fun copied => (alike_table_mapM entry.tags tags).bind fun tags => .pure _

theorem alike_property {property : Property}
    (cell : source.cells[ref]? = some (.property property))
    (getter : ∀ value, property.getter = some value → Alike source bound (copy value) (other value))
    (setter : ∀ value, property.setter = some value → Alike source bound (copy value) (other value))
    (tags : ∀ key tag, property.tags.get? key = some tag →
      Alike source bound (copy tag) (other tag)) :
    Alike source bound (CopyM.property copy ref) (CopyM.property other ref) := by
  refine Alike.reading property (fun before atop => ?_) ?_
  · exact Store.property_eq (atop.found cell)
  · refine (alike_option_mapM property.getter getter).bind fun get => ?_
    refine (alike_option_mapM property.setter setter).bind fun set => ?_
    exact (alike_table_mapM property.tags tags).bind fun tags => .pure _

theorem alike_object {object : Object} {values : Table Value}
    (found : source.cells[ref]? = some (.object object))
    (held : source.cells[object.values]? = some (.map values))
    (each : ∀ key value, values.get? key = some value →
      Alike source bound (copy value) (other value)) :
    Alike source (bound + 1) (CopyM.object copy ref) (CopyM.object other ref) := by
  refine alike_unlessCopied fun before atop few absent => ?_
  let storage := before.store.cells.size
  let opening := before.push (.map {})
  let copied := opening.store.cells.size
  let start := (opening.push (.object { type := object.type, values := storage })).note ref copied
  have less : uncopied source.cells.size start.copies < uncopied source.cells.size before.copies :=
    uncopied_note_lt copied (Store.lt_of_getElem?_eq_some found) absent
  have opened : start.Over source :=
    ((atop.grows (.push source before _)).grows (.push source opening _)).note ref copied
  obtain ⟨same, ended, fewer⟩ := alike_entries held each start opened (by omega)
  have read : before.store.object ref = object := Store.object_eq (atop.found found)
  have run (copy : Value → CopyM Value) :
      (do newObject copy ref (← CopyM.read (·.object ref)) : CopyM Ref).run before =
        (copied, ((entries copy object.values).run start).2.put storage
          ((entries copy object.values).run start).1) := by
    show (newObject copy ref (before.store.object ref)).run before = _
    rw [read]
    exact run_newObject rfl
  rw [run copy, run other, ← same]
  refine ⟨rfl, over_put ended atop.size _, ?_⟩
  exact Nat.le_trans fewer (Nat.le_of_lt less)

end Containers

section Values

variable {copy other : Value → CopyM Value}
  (alike : ∀ value, source.Grounded value → Alike source bound (copy value) (other value))

include alike

theorem alike_member (kind : MemberKind) {ref : Ref} (grounded : source.Grounded (.member kind ref)) :
    Alike source (bound + 1) (member copy kind ref) (member other kind ref) := by
  have inside := grounded.fits.lt (.member kind ref)
  have entry (plain : kind ≠ .property) :
      Alike source bound (CopyM.entry copy ref) (CopyM.entry other ref) := by
    refine alike_entry (grounded.fits.entry_cell plain) ?_ ?_
    · exact alike _ (grounded.of_holds (.declared plain ref))
    · intro key tag found
      exact alike tag (grounded.of_holds (.tag plain key found))
  cases kind with
  | field => exact alike_once inside (entry nofun)
  | method => exact alike_once inside (entry nofun)
  | property =>
    refine alike_once inside (alike_property grounded.fits.property_cell ?_ ?_ ?_)
    · intro value found
      exact alike value (grounded.of_holds (.getter found))
    · intro value found
      exact alike value (grounded.of_holds (.setter found))
    · intro key value found
      exact alike value (grounded.of_holds (.propertyTag key found))

theorem alike_members {kind : MemberKind} {ref : Ref} (grounded : source.Grounded (.members kind ref)) :
    Alike source bound (CopyM.members copy kind ref) (CopyM.members other kind ref) := by
  have cell := grounded.fits.members_cell
  refine Alike.reading (source.members ref) (fun before atop => ?_) ?_
  · exact Store.members_eq (atop.found cell)
  · refine (alike_table_mapM _ fun name member found => ?_).bind fun copied => .pure _
    exact (alike_member alike kind (grounded.of_holds (.listed kind name found))).sooner

theorem alike_round (v : Value) (grounded : source.Grounded v) :
    Alike source (bound + 1) (round copy v) (round other v) := by
  induction v with
  | error id payload ih =>
    refine (ih (grounded.of_holds (.payload id payload))).bind fun copied => ?_
    exact alike_freshId.bind fun fresh => .pure _
  | function ref =>
    exact (alike_read _).bind fun function => (alike_alloc _).bind fun fresh => .pure _
  | bound id hold callee receiver ih _ =>
    refine (ih (grounded.of_holds (.callee id hold callee receiver))).bind fun copied => ?_
    exact alike_freshId.bind fun fresh => .pure _
  | array handle ref =>
    have contents := alike_elements grounded.fits.array_cell fun value member =>
      alike value (grounded.of_holds (.contains (.element handle member)))
    exact (alike_once (grounded.fits.lt (.array handle ref)) contents).bind fun copied => .pure _
  | map handle ref =>
    have contents := alike_entries grounded.fits.map_cell fun key value found =>
      alike value (grounded.of_holds (.contains (.entry handle key found)))
    exact (alike_once (grounded.fits.lt (.map handle ref)) contents).bind fun copied => .pure _
  | object ref =>
    have made := alike_object grounded.fits.object_cell grounded.fits.storage_cell fun key value found =>
      alike value (grounded.of_holds (.contains (.field key found)))
    exact made.bind fun copied => .pure _
  | member kind ref => exact (alike_member alike kind grounded).bind fun copied => .pure _
  | members kind ref =>
    have contents := alike_members alike grounded
    exact (alike_once (grounded.fits.lt (.members kind ref)) contents).bind fun copied => .pure _
  | _ => exact .pure _

end Values

/-- With more rounds than cells to copy, it does not matter what would come after them. -/
theorem alike_unrolled (beyond other : Value → CopyM Value) (rounds : Nat) (v : Value)
    (grounded : source.Grounded v) :
    Alike source rounds (unrolled round beyond rounds v) (unrolled round other rounds v) := by
  induction rounds generalizing v with
  | zero => exact fun _ _ few => absurd few (Nat.not_lt_zero _)
  | succ rounds ih => exact alike_round ih v grounded

end CopyM

/-- A copy goes no deeper than there are cells. -/
theorem StoreM.copying_unrolled {store : Store} {value : Value} (grounded : store.Grounded value)
    (beyond : Value → CopyM Value) {rounds : Nat} (enough : store.cells.size < rounds) :
    (copying (unrolled CopyM.round beyond rounds value)).run store = (copy value).run store := by
  let least := store.cells.size + 1
  obtain ⟨more, rfl⟩ : ∃ more, rounds = least + more := Nat.exists_eq_add_of_le enough
  have few : uncopied store.cells.size ∅ < least := Nat.lt_succ_of_le (uncopied_le_size _ _)
  have alike := CopyM.alike_unrolled (unrolled CopyM.round beyond more) pure least value grounded
  obtain ⟨same, -⟩ := alike { store } ⟨Nat.le_refl _, fun _ _ => rfl⟩ few
  rw [← unrolled_add, ← CopyM.within_eq_unrolled] at same
  exact congrArg (fun made : Value × Copying => EStateM.Result.ok made.1 made.2.store) same

end ScriptMachine
