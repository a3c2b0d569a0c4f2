import ScriptMachine.Proofs.Reachability
import ScriptMachine.Proofs.TableRelations
import ScriptMachine.Value.Copy
import Mathlib.Data.Finset.Card
import Mathlib.Data.List.Forall2

/-! Copying as growth: it adds cells and leaves those it found alone. A copy is noted before it has
contents, so what a computation owes is the contents of the copies that it noted itself. -/

namespace ScriptMachine

abbrev Copies := Std.HashMap Ref Ref

/-- Values that a copy has in common with its source. -/
def Value.Shared : Value → Prop
  | array .. | map .. | object _ | member .. | members .. | error .. | function _ | bound .. => False
  | _ => True

/-- A value and its copy. -/
inductive Value.Image (copies : Copies) : Value → Value → Prop where
  | array (handle : Handle) {ref copied : Ref} (found : copies[ref]? = some copied) :
      Image copies (.array handle ref) (.array .writable copied)
  | map (handle : Handle) {ref copied : Ref} (found : copies[ref]? = some copied) :
      Image copies (.map handle ref) (.map .writable copied)
  | object {ref copied : Ref} (found : copies[ref]? = some copied) :
      Image copies (.object ref) (.object copied)
  | member (kind : MemberKind) {ref copied : Ref} (found : copies[ref]? = some copied) :
      Image copies (.member kind ref) (.member kind copied)
  | members (kind : MemberKind) {ref copied : Ref} (found : copies[ref]? = some copied) :
      Image copies (.members kind ref) (.members kind copied)
  | error (id fresh : Nat) {payload copied : Value} (inside : Image copies payload copied) :
      Image copies (.error id payload) (.error fresh copied)
  | function (ref fresh : Ref) : Image copies (.function ref) (.function fresh)
  | bound (id fresh : Nat) (hold : Hold) {callee copied : Value} (receiver : Value)
      (inside : Image copies callee copied) :
      Image copies (.bound id hold callee receiver) (.bound fresh hold copied receiver)
  | same {value : Value} (shared : value.Shared) : Image copies value value

inductive Cell.Image (copies : Copies) : Cell → Cell → Prop where
  | array {elements copied : Array Value}
      (each : List.Forall₂ (Value.Image copies) elements.toList copied.toList) :
      Image copies (.array elements) (.array copied)
  | map {entries copied : Table Value} (each : Table.Agree (Value.Image copies) entries copied) :
      Image copies (.map entries) (.map copied)
  | entry {entry copied : Entry} (value : Value.Image copies entry.value copied.value)
      (tags : Table.Agree (Value.Image copies) entry.tags copied.tags) :
      Image copies (.entry entry) (.entry copied)
  | property {property copied : Property}
      (getter : Option.Rel (Value.Image copies) property.getter copied.getter)
      (setter : Option.Rel (Value.Image copies) property.setter copied.setter)
      (tags : Table.Agree (Value.Image copies) property.tags copied.tags) :
      Image copies (.property property) (.property copied)
  | members (kind : MemberKind) {members copied : Table Ref}
      (each : Table.Agree (fun (ref copied : Ref) => copies[ref]? = some copied) members copied) :
      Image copies (.members kind members) (.members kind copied)

/-- A finished copy of a cell of the source store, in cells from `low` on. An instance has a storage
of its own. -/
inductive Copied (source : Store) (state : Copying) (low : Nat) (ref copied : Ref) : Prop where
  | cell {original contents : Cell} (found : source.cells[ref]? = some original)
      (made : state.store.cells[copied]? = some contents)
      (image : Cell.Image state.copies original contents)
  | object {object : Object} {values contents : Table Value} {storage : Ref}
      (found : source.cells[ref]? = some (.object object))
      (held : source.cells[object.values]? = some (.map values))
      (made : state.store.cells[copied]? = some (.object { type := object.type, values := storage }))
      (fresh : low ≤ storage) (filled : state.store.cells[storage]? = some (.map contents))
      (each : Table.Agree (Value.Image state.copies) values contents)

namespace Copying

variable {source : Store} {state before middle after : Copying}

/-- A state in which the cells of the source store are as they were. -/
structure Over (source : Store) (state : Copying) : Prop where
  size : source.cells.size ≤ state.store.cells.size
  kept : ∀ ref < source.cells.size, state.store.cells[ref]? = source.cells[ref]?

/-- What copying does: cells and notes stay, and every note that is new is of a finished copy in
new cells. -/
structure Grows (source : Store) (before after : Copying) : Prop where
  size : before.store.cells.size ≤ after.store.cells.size
  kept : ∀ ref < before.store.cells.size, after.store.cells[ref]? = before.store.cells[ref]?
  noted : ∀ ref copied : Ref, before.copies[ref]? = some copied → after.copies[ref]? = some copied
  made : ∀ ref copied : Ref, after.copies[ref]? = some copied → before.copies[ref]? = none →
    before.store.cells.size ≤ copied ∧ Copied source after before.store.cells.size ref copied

end Copying

theorem optionRel_mono {α β : Type} {related weaker : α → β → Prop}
    (implies : ∀ value other, related value other → weaker value other) {value : Option α}
    {other : Option β} (both : Option.Rel related value other) : Option.Rel weaker value other := by
  cases both with
  | some holds => exact .some (implies _ _ holds)
  | none => exact .none

theorem exists_of_optionRel {α β : Type} {related : α → β → Prop} {value : Option α}
    {other : Option β} (both : Option.Rel related value other) {held : β} (found : other = some held) :
    ∃ origin, value = some origin ∧ related origin held := by
  subst found
  cases both with
  | some holds => exact ⟨_, rfl, holds⟩

theorem isSome_eq_of_optionRel {α β : Type} {related : α → β → Prop} {value : Option α}
    {other : Option β} (both : Option.Rel related value other) : value.isSome = other.isSome := by
  cases both <;> rfl

section Mono

variable {copies more : Copies}
  (grows : ∀ ref copied : Ref, copies[ref]? = some copied → more[ref]? = some copied)

include grows

theorem Value.Image.mono {value copied : Value} (image : Value.Image copies value copied) :
    Value.Image more value copied := by
  induction image with
  | array handle found => exact .array handle (grows _ _ found)
  | map handle found => exact .map handle (grows _ _ found)
  | object found => exact .object (grows _ _ found)
  | member kind found => exact .member kind (grows _ _ found)
  | members kind found => exact .members kind (grows _ _ found)
  | error id fresh _ ih => exact .error id fresh ih
  | function ref fresh => exact .function ref fresh
  | bound id fresh hold receiver _ ih => exact .bound id fresh hold receiver ih
  | same shared => exact .same shared

theorem Cell.Image.mono {original contents : Cell} (image : Cell.Image copies original contents) :
    Cell.Image more original contents := by
  have each : ∀ value copied, Value.Image copies value copied → Value.Image more value copied :=
    fun _ _ image => image.mono grows
  cases image with
  | array elements => exact .array (elements.imp each)
  | map entries => exact .map (entries.mono each)
  | entry value tags => exact .entry (each _ _ value) (tags.mono each)
  | property getter setter tags =>
    exact .property (optionRel_mono each getter) (optionRel_mono each setter) (tags.mono each)
  | members kind members => exact .members kind (members.mono grows)

end Mono

namespace Copied

variable {source : Store} {before after : Copying} {low : Nat} {ref copied : Ref}

theorem keep (finished : Copied source before low ref copied) (above : low ≤ copied)
    (kept : ∀ cell, low ≤ cell → cell < before.store.cells.size →
      after.store.cells[cell]? = before.store.cells[cell]?)
    (noted : ∀ ref copied : Ref, before.copies[ref]? = some copied → after.copies[ref]? = some copied) :
    Copied source after low ref copied := by
  cases finished with
  | cell found made image =>
    refine .cell found ?_ (image.mono noted)
    rw [kept copied above (Store.lt_of_getElem?_eq_some made), made]
  | @object object values contents storage found held made fresh filled each =>
    refine .object found held ?_ fresh ?_ (each.mono fun _ _ image => image.mono noted)
    · rw [kept copied above (Store.lt_of_getElem?_eq_some made), made]
    · rw [kept storage fresh (Store.lt_of_getElem?_eq_some filled), filled]

theorem lower {high : Nat} (finished : Copied source before high ref copied) (under : low ≤ high) :
    Copied source before low ref copied := by
  cases finished with
  | cell found made image => exact .cell found made image
  | object found held made fresh filled each =>
    exact .object found held made (Nat.le_trans under fresh) filled each

end Copied

namespace Copying

variable {source : Store} {state before middle after : Copying}

theorem Grows.refl (source : Store) (state : Copying) : Grows source state state := by
  refine ⟨Nat.le_refl _, fun _ _ => rfl, fun _ _ found => found, ?_⟩
  intro ref copied found absent
  rw [absent] at found
  cases found

theorem Grows.trans (first : Grows source before middle) (second : Grows source middle after) :
    Grows source before after := by
  refine ⟨Nat.le_trans first.size second.size, ?_, ?_, ?_⟩
  · intro ref inside
    rw [second.kept ref (Nat.lt_of_lt_of_le inside first.size), first.kept ref inside]
  · exact fun ref copied found => second.noted ref copied (first.noted ref copied found)
  · intro ref copied found absent
    cases known : middle.copies[ref]? with
    | none =>
      obtain ⟨above, finished⟩ := second.made ref copied found known
      exact ⟨Nat.le_trans first.size above, finished.lower first.size⟩
    | some other =>
      have same := second.noted ref other known
      rw [found] at same
      cases same
      obtain ⟨above, finished⟩ := first.made ref copied known absent
      exact ⟨above, finished.keep above (fun cell _ inside => second.kept cell inside) second.noted⟩

theorem Over.found (atop : Over source state) {ref : Ref} {cell : Cell}
    (found : source.cells[ref]? = some cell) : state.store.cells[ref]? = some cell := by
  rw [atop.kept ref (Store.lt_of_getElem?_eq_some found), found]

theorem Over.grows (atop : Over source before) (grows : Grows source before after) :
    Over source after := by
  refine ⟨Nat.le_trans atop.size grows.size, ?_⟩
  intro ref inside
  rw [grows.kept ref (Nat.lt_of_lt_of_le inside atop.size), atop.kept ref inside]

theorem Over.note (atop : Over source state) (ref copied : Ref) :
    Over source (state.note ref copied) :=
  ⟨atop.size, atop.kept⟩

theorem getElem?_put_of_ne (state : Copying) {ref other : Ref} (cell : Cell) (apart : other ≠ ref) :
    (state.put ref cell).store.cells[other]? = state.store.cells[other]? := by
  simp only [put, Store.set, Array.getElem?_setIfInBounds, if_neg apart.symm]

theorem getElem?_put_self (state : Copying) {ref : Ref} (cell : Cell)
    (inside : ref < state.store.cells.size) :
    (state.put ref cell).store.cells[ref]? = some cell := by
  simp only [put, Store.set, Array.getElem?_setIfInBounds, if_pos inside, if_true]

theorem getElem?_note_of_ne (state : Copying) {ref other copied : Ref} (apart : other ≠ ref) :
    (state.note ref copied).copies[other]? = state.copies[other]? := by
  simp only [note, Std.HashMap.getElem?_insert, beq_iff_eq, if_neg apart.symm]

theorem getElem?_note_self (state : Copying) (ref copied : Ref) :
    (state.note ref copied).copies[ref]? = some copied := by
  simp only [note, Std.HashMap.getElem?_insert_self]

theorem getElem?_push_of_lt (state : Copying) (cell : Cell) {ref : Ref}
    (inside : ref < state.store.cells.size) :
    (state.push cell).store.cells[ref]? = state.store.cells[ref]? := by
  simp only [push, Array.getElem?_push, if_neg (Nat.ne_of_lt inside)]

theorem size_push (state : Copying) (cell : Cell) :
    (state.push cell).store.cells.size = state.store.cells.size + 1 := Array.size_push _

theorem size_put (state : Copying) (ref : Ref) (cell : Cell) :
    (state.put ref cell).store.cells.size = state.store.cells.size :=
  Array.size_setIfInBounds

theorem Grows.push (source : Store) (state : Copying) (cell : Cell) :
    Grows source state (state.push cell) := by
  refine ⟨?_, fun ref inside => state.getElem?_push_of_lt cell inside, fun _ _ found => found, ?_⟩
  · rw [size_push]
    exact Nat.le_succ _
  · intro ref copied found absent
    cases found.symm.trans absent

/-- A copy is begun in new cells and noted, and gets its contents once all it holds is copied. From
beginning to end that is growth. -/
theorem Grows.finish {start : Copying} {ref copied target : Ref} {contents : Cell}
    (opened : Grows source before start) (copies : start.copies = before.copies)
    (absent : before.copies[ref]? = none) (grown : Grows source (start.note ref copied) middle)
    (noted : before.store.cells.size ≤ copied) (above : before.store.cells.size ≤ target)
    (below : target < start.store.cells.size)
    (finished : Copied source (middle.put target contents) before.store.cells.size ref copied) :
    Grows source before (middle.put target contents) := by
  refine ⟨?_, ?_, ?_, ?_⟩
  · rw [size_put]
    exact Nat.le_trans opened.size grown.size
  · intro cell inside
    rw [middle.getElem?_put_of_ne contents (Nat.ne_of_lt (Nat.lt_of_lt_of_le inside above))]
    exact (grown.kept cell (Nat.lt_of_lt_of_le inside opened.size)).trans (opened.kept cell inside)
  · intro other known found
    refine grown.noted other known ?_
    rw [start.getElem?_note_of_ne, copies, found]
    rintro rfl
    cases found.symm.trans absent
  · intro other known found fresh
    by_cases same : other = ref
    · subst same
      have here := grown.noted other copied (start.getElem?_note_self other copied)
      cases here.symm.trans found
      exact ⟨noted, finished⟩
    · have outside : (start.note ref copied).copies[other]? = none := by
        rw [start.getElem?_note_of_ne same, copies, fresh]
      obtain ⟨later, made⟩ := grown.made other known found outside
      have kept : Copied source (middle.put target contents) _ other known :=
        made.keep later (fun cell high _ => middle.getElem?_put_of_ne contents
          (Nat.ne_of_gt (Nat.lt_of_lt_of_le below high))) fun _ _ found => found
      exact ⟨Nat.le_trans opened.size later, kept.lower opened.size⟩

end Copying

/-- How many cells of the source store have no copy yet. -/
def uncopied (size : Nat) (copies : Copies) : Nat :=
  ((Finset.range size).filter fun ref => copies[ref]? = none).card

theorem uncopied_le_size (size : Nat) (copies : Copies) : uncopied size copies ≤ size := by
  refine (Finset.card_filter_le _ _).trans ?_
  rw [Finset.card_range]

theorem uncopied_le {size : Nat} {copies more : Copies}
    (grows : ∀ ref copied : Ref, copies[ref]? = some copied → more[ref]? = some copied) :
    uncopied size more ≤ uncopied size copies := by
  apply Finset.card_le_card
  intro ref member
  rw [Finset.mem_filter] at member ⊢
  refine ⟨member.1, ?_⟩
  cases found : copies[ref]? with
  | none => rfl
  | some copied => cases (grows ref copied found).symm.trans member.2

theorem uncopied_note_lt {size : Nat} {state : Copying} {ref : Ref} (copied : Ref)
    (inside : ref < size) (absent : state.copies[ref]? = none) :
    uncopied size (state.note ref copied).copies < uncopied size state.copies := by
  apply Finset.card_lt_card
  refine ⟨?_, fun same => ?_⟩
  · intro other member
    rw [Finset.mem_filter] at member ⊢
    refine ⟨member.1, ?_⟩
    by_cases same : other = ref
    · rw [same, absent]
    · rw [← state.getElem?_note_of_ne same]
      exact member.2
  · have member : ref ∈ (Finset.range size).filter fun ref => state.copies[ref]? = none :=
      Finset.mem_filter.mpr ⟨Finset.mem_range.mpr inside, absent⟩
    have noted := (Finset.mem_filter.mp (same member)).2
    cases (state.getElem?_note_self ref copied).symm.trans noted

namespace CopyM

variable {α β : Type} {source : Store} {bound : Nat}

/-- A computation that copies: over the source store, with fewer than `bound` cells left to copy, it
grows the state and gives a result of which `post` is true from then on. -/
def Makes (source : Store) (bound : Nat) (act : CopyM α) (post : Copies → α → Prop) : Prop :=
  ∀ before, before.Over source → uncopied source.cells.size before.copies < bound →
    Copying.Grows source before (act.run before).2 ∧
      post (act.run before).2.copies (act.run before).1

theorem Makes.pure {post : Copies → α → Prop} {value : α} (holds : ∀ copies, post copies value) :
    Makes source bound (Pure.pure value) post :=
  fun before _ _ => ⟨.refl source before, holds _⟩

theorem Makes.weaken {act : CopyM α} {post other : Copies → α → Prop}
    (makes : Makes source bound act post)
    (implies : ∀ copies value, post copies value → other copies value) :
    Makes source bound act other :=
  fun before atop few => ⟨(makes before atop few).1, implies _ _ (makes before atop few).2⟩

theorem Makes.sooner {act : CopyM α} {post : Copies → α → Prop}
    (makes : Makes source (bound + 1) act post) : Makes source bound act post :=
  fun before atop few => makes before atop (Nat.lt_succ_of_lt few)

theorem Makes.bind {act : CopyM α} {rest : α → CopyM β} {post : Copies → α → Prop}
    {last : Copies → β → Prop} (first : Makes source bound act post)
    (next : ∀ copies value, post copies value → Makes source bound (rest value) fun more result =>
      (∀ ref copied : Ref, copies[ref]? = some copied → more[ref]? = some copied) → last more result) :
    Makes source bound (act >>= rest) last := by
  intro before atop few
  obtain ⟨begun, known⟩ := first before atop few
  have fewer : uncopied source.cells.size _ ≤ uncopied source.cells.size _ := uncopied_le begun.noted
  obtain ⟨ended, result⟩ := next _ _ known (act.run before).2 (atop.grows begun)
    (Nat.lt_of_le_of_lt fewer few)
  exact ⟨begun.trans ended, result ended.noted⟩

/-- A relation between values and copies that more notes do not end. -/
def Lasting (related : Copies → α → β → Prop) : Prop :=
  ∀ copies more : Copies,
    (∀ ref copied : Ref, copies[ref]? = some copied → more[ref]? = some copied) →
    ∀ value copied, related copies value copied → related more value copied

theorem lasting_image : Lasting Value.Image := fun _ _ grows _ _ image => image.mono grows

theorem lasting_noted : Lasting fun (copies : Copies) (ref copied : Ref) => copies[ref]? = some copied :=
  fun _ _ grows _ _ found => grows _ _ found

theorem makes_readAt {ref : Ref} {original : Cell} (found : source.cells[ref]? = some original)
    {view : Store → α} {result : α}
    (reads : ∀ store : Store, store.cells[ref]? = some original → view store = result) :
    Makes source bound (read view) fun _ value => value = result := by
  intro before atop _
  exact ⟨.refl source before, reads before.store (atop.found found)⟩

theorem makes_read (view : Store → α) : Makes source bound (read view) fun _ _ => True :=
  fun before _ _ => ⟨.refl source before, trivial⟩

theorem makes_alloc (cell : Cell) : Makes source bound (alloc cell) fun _ _ => True :=
  fun before _ _ => ⟨.push source before cell, trivial⟩

theorem makes_freshId : Makes source bound freshId fun _ _ => True := by
  intro before _ _
  refine ⟨⟨Nat.le_refl _, fun _ _ => rfl, fun _ _ found => found, ?_⟩, trivial⟩
  intro ref copied found absent
  cases found.symm.trans absent

section Collections

variable {copy : α → CopyM β} {related : Copies → α → β → Prop} (lasting : Lasting related)

include lasting

theorem makes_mapM (values : List α)
    (each : ∀ value ∈ values, Makes source bound (copy value) fun copies => related copies value) :
    Makes source bound (values.mapM copy) fun copies => List.Forall₂ (related copies) values := by
  induction values with
  | nil => exact .pure fun _ => .nil
  | cons value rest ih =>
    rw [List.mapM_cons]
    refine (each value (.head _)).bind fun copies first image => ?_
    refine (ih fun other member => each other (.tail _ member)).bind fun _ others images => ?_
    exact .pure fun more since grows =>
      .cons (lasting _ _ grows _ _ image) (images.imp (lasting _ _ since))

theorem makes_array_mapM (values : Array α)
    (each : ∀ value ∈ values, Makes source bound (copy value) fun copies => related copies value) :
    Makes source bound (values.mapM copy) fun copies copied =>
      List.Forall₂ (related copies) values.toList copied.toList := by
  rw [Array.mapM_eq_mapM_toList, ← bind_pure_comp]
  refine (makes_mapM lasting values.toList fun value member => each value (by simpa using member)).bind ?_
  intro copies copied all
  exact .pure fun more grows => all.imp (lasting _ _ grows)

theorem makes_table_mapM (table : Table α)
    (each : ∀ key value, table.get? key = some value →
      Makes source bound (copy value) fun copies => related copies value) :
    Makes source bound (table.mapM copy) fun copies => Table.Agree (related copies) table := by
  have pairwise : Lasting fun copies (entry : String × α) (pair : String × β) =>
      pair.1 = entry.1 ∧ related copies entry.2 pair.2 :=
    fun _ _ grows _ _ both => ⟨both.1, lasting _ _ grows _ _ both.2⟩
  have entries : ∀ entry ∈ table.entries, Makes source bound
      (do return (entry.1, ← copy entry.2)) fun copies pair =>
        pair.1 = entry.1 ∧ related copies entry.2 pair.2 := by
    intro entry member
    have held := (table.mem_entries_iff entry.1 entry.2).mp member
    refine (each entry.1 entry.2 held).bind fun copies copied holds => ?_
    exact .pure fun more grows => ⟨rfl, lasting _ _ grows _ _ holds⟩
  refine (makes_mapM pairwise table.entries entries).bind fun copies pairs agree => ?_
  exact .pure fun more grows => (Table.agree_ofList agree).mono (lasting _ _ grows)

theorem makes_option_mapM (option : Option α)
    (each : ∀ value, option = some value →
      Makes source bound (copy value) fun copies => related copies value) :
    Makes source bound (option.mapM copy) fun copies => Option.Rel (related copies) option := by
  cases option with
  | none => exact .pure fun _ => .none
  | some value =>
    rw [Option.mapM_some, ← bind_pure_comp]
    refine (each value rfl).bind fun copies copied holds => ?_
    exact .pure fun more grows => .some (lasting _ _ grows _ _ holds)

end Collections

section Containers

variable {copy : Value → CopyM Value} {ref : Ref}

theorem run_unlessCopied_of_some {state : Copying} {copied : Ref} (found : state.copies[ref]? = some copied)
    (make : CopyM Ref) : (unlessCopied ref make).run state = (pure copied : CopyM Ref).run state := by
  simp [unlessCopied, found]

theorem run_unlessCopied_of_none {state : Copying} (absent : state.copies[ref]? = none)
    (make : CopyM Ref) : (unlessCopied ref make).run state = make.run state := by
  simp [unlessCopied, absent]

/-- A cell is copied at its first turn, and later turns find the copy. -/
theorem makes_unlessCopied {make : CopyM Ref}
    (first : ∀ before : Copying, before.Over source →
      uncopied source.cells.size before.copies < bound → before.copies[ref]? = none →
      Copying.Grows source before (make.run before).2 ∧
        (make.run before).2.copies[ref]? = some (make.run before).1) :
    Makes source bound (unlessCopied ref make) fun copies copied => copies[ref]? = some copied := by
  intro before atop few
  cases found : before.copies[ref]? with
  | some copied =>
    rw [run_unlessCopied_of_some found]
    exact ⟨.refl source before, found⟩
  | none =>
    rw [run_unlessCopied_of_none found]
    exact first before atop few found

theorem makes_once {blank original : Cell} {contents : CopyM Cell}
    (found : source.cells[ref]? = some original)
    (makes : Makes source bound contents fun copies => Cell.Image copies original) :
    Makes source (bound + 1) (once ref blank contents) fun copies copied =>
      copies[ref]? = some copied := by
  refine makes_unlessCopied fun before atop few absent => ?_
  let copied := before.store.cells.size
  let start := before.push blank
  have opened : Copying.Grows source before start := .push source before blank
  have less : uncopied source.cells.size (start.note ref copied).copies < _ :=
    uncopied_note_lt copied (Store.lt_of_getElem?_eq_some found) absent
  obtain ⟨grown, image⟩ := makes (start.note ref copied) ((atop.grows opened).note ref copied)
    (Nat.lt_of_lt_of_le less (Nat.le_of_lt_succ few))
  have room : copied < start.store.cells.size := by
    rw [Copying.size_push]
    exact Nat.lt_succ_self _
  refine ⟨opened.finish rfl absent grown (Nat.le_refl _) (Nat.le_refl _) room ?_, ?_⟩
  · exact .cell found (Copying.getElem?_put_self _ _ (Nat.lt_of_lt_of_le room grown.size)) image
  · exact grown.noted ref copied (start.getElem?_note_self ref copied)

theorem makes_entries {values : Table Value} (held : source.cells[ref]? = some (.map values))
    (makes : ∀ key value, values.get? key = some value →
      Makes source bound (copy value) fun copies => Value.Image copies value) :
    Makes source bound (CopyM.entries copy ref) fun copies contents =>
      ∃ copied, contents = .map copied ∧ Table.Agree (Value.Image copies) values copied := by
  have reads : Makes source bound (read (·.entries ref)) fun _ table => table = values :=
    makes_readAt held fun _ => Store.entries_eq
  refine reads.bind fun _ table same => ?_
  rw [same]
  refine (makes_table_mapM lasting_image values makes).bind fun copies copied agree => ?_
  exact .pure fun more since _ => ⟨copied, rfl, agree.mono (lasting_image _ _ since)⟩

theorem run_newObject {object : Object} {before middle : Copying} {cell : Cell}
    (entered : (CopyM.entries copy object.values).run
      (((before.push (.map {})).push
        (.object { type := object.type, values := before.store.cells.size })).note ref
        (before.push (.map {})).store.cells.size) = (cell, middle)) :
    (newObject copy ref object).run before =
      ((before.push (.map {})).store.cells.size, middle.put before.store.cells.size cell) := by
  simp only [newObject, alloc, remember, fill, StateT.run_bind, StateT.run_modifyGet, StateT.run_modify,
    pure_bind, entered]
  rfl

theorem makes_object {object : Object} {values : Table Value}
    (found : source.cells[ref]? = some (.object object))
    (held : source.cells[object.values]? = some (.map values))
    (makes : ∀ key value, values.get? key = some value →
      Makes source bound (copy value) fun copies => Value.Image copies value) :
    Makes source (bound + 1) (CopyM.object copy ref) fun copies copied =>
      copies[ref]? = some copied := by
  refine makes_unlessCopied fun before atop few absent => ?_
  let storage := before.store.cells.size
  let opening := before.push (.map {})
  let copied := opening.store.cells.size
  let start := opening.push (.object { type := object.type, values := storage })
  have next : copied = storage + 1 := Copying.size_push before _
  have size : start.store.cells.size = copied + 1 := Copying.size_push opening _
  have opened : Copying.Grows source before start :=
    (Copying.Grows.push source before (.map {})).trans (.push source opening _)
  have less : uncopied source.cells.size (start.note ref copied).copies < _ :=
    uncopied_note_lt copied (Store.lt_of_getElem?_eq_some found) absent
  have entered := makes_entries held makes (start.note ref copied)
    ((atop.grows opened).note ref copied) (Nat.lt_of_lt_of_le less (Nat.le_of_lt_succ few))
  have read : before.store.object ref = object := Store.object_eq (atop.found found)
  have run : (do newObject copy ref (← CopyM.read (·.object ref)) : CopyM Ref).run before =
      (newObject copy ref object).run before := by
    rw [← read]
    rfl
  cases result : (CopyM.entries copy object.values).run (start.note ref copied) with
  | mk cell middle =>
    rw [result] at entered
    obtain ⟨grown, contents, rfl, agree⟩ := entered
    rw [run, run_newObject result]
    have apart : copied ≠ storage := by omega
    have room : storage < start.store.cells.size := by omega
    have begun : copied < (start.note ref copied).store.cells.size := by
      show copied < start.store.cells.size
      omega
    have made : (middle.put storage (.map contents)).store.cells[copied]? =
        some (.object { type := object.type, values := storage }) := by
      rw [Copying.getElem?_put_of_ne _ _ apart]
      exact (grown.kept copied begun).trans Array.getElem?_push_size
    have finished := middle.getElem?_put_self (.map contents) (Nat.lt_of_lt_of_le room grown.size)
    refine ⟨opened.finish rfl absent grown (by omega) (Nat.le_refl _) room ?_, ?_⟩
    · exact .object found held made (Nat.le_refl _) finished agree
    · exact grown.noted ref copied (start.getElem?_note_self ref copied)

theorem makes_elements {elements : Array Value} (found : source.cells[ref]? = some (.array elements))
    (makes : ∀ value ∈ elements, Makes source bound (copy value) fun copies => Value.Image copies value) :
    Makes source bound (CopyM.elements copy ref) fun copies => Cell.Image copies (.array elements) := by
  have reads : Makes source bound (read (·.elements ref)) fun _ array => array = elements :=
    makes_readAt found fun _ => Store.elements_eq
  refine reads.bind fun _ array same => ?_
  rw [same]
  refine (makes_array_mapM lasting_image elements makes).bind fun _ copied images => ?_
  exact .pure fun more since _ => .array (images.imp (lasting_image _ _ since))

theorem makes_entry {entry : Entry} (found : source.cells[ref]? = some (.entry entry))
    (value : Makes source bound (copy entry.value) fun copies => Value.Image copies entry.value)
    (tags : ∀ key tag, entry.tags.get? key = some tag →
      Makes source bound (copy tag) fun copies => Value.Image copies tag) :
    Makes source bound (CopyM.entry copy ref) fun copies => Cell.Image copies (.entry entry) := by
  have reads : Makes source bound (read (·.entry ref)) fun _ read => read = entry :=
    makes_readAt found fun _ => Store.entry_eq
  refine reads.bind fun _ read same => ?_
  rw [same]
  refine value.bind fun _ copied image => ?_
  refine (makes_table_mapM lasting_image entry.tags tags).bind fun _ copiedTags agree => ?_
  refine .pure fun more sinceTags sinceValue _ => .entry ?_ ?_
  · exact image.mono sinceValue
  · exact agree.mono (lasting_image _ _ sinceTags)

theorem makes_property {property : Property}
    (found : source.cells[ref]? = some (.property property))
    (getter : ∀ value, property.getter = some value →
      Makes source bound (copy value) fun copies => Value.Image copies value)
    (setter : ∀ value, property.setter = some value →
      Makes source bound (copy value) fun copies => Value.Image copies value)
    (tags : ∀ key tag, property.tags.get? key = some tag →
      Makes source bound (copy tag) fun copies => Value.Image copies tag) :
    Makes source bound (CopyM.property copy ref) fun copies =>
      Cell.Image copies (.property property) := by
  have reads : Makes source bound (read (·.property ref)) fun _ read => read = property :=
    makes_readAt found fun _ => Store.property_eq
  refine reads.bind fun _ read same => ?_
  rw [same]
  refine (makes_option_mapM lasting_image property.getter getter).bind fun _ get got => ?_
  refine (makes_option_mapM lasting_image property.setter setter).bind fun _ set put => ?_
  refine (makes_table_mapM lasting_image property.tags tags).bind fun _ copiedTags agree => ?_
  refine .pure fun more sinceTags sinceSetter sinceGetter _ => .property ?_ ?_ ?_
  · exact optionRel_mono (lasting_image _ _ sinceGetter) got
  · exact optionRel_mono (lasting_image _ _ sinceSetter) put
  · exact agree.mono (lasting_image _ _ sinceTags)

end Containers

section Values

variable {copy : Value → CopyM Value}
  (copies : ∀ value, source.Grounded value →
    Makes source bound (copy value) fun copies => Value.Image copies value)

include copies

theorem makes_member (kind : MemberKind) {ref : Ref} (grounded : source.Grounded (.member kind ref)) :
    Makes source (bound + 1) (member copy kind ref) fun copies copied => copies[ref]? = some copied := by
  have entry (plain : kind ≠ .property) : Makes source bound (CopyM.entry copy ref) fun copies =>
      Cell.Image copies (.entry (source.entry ref)) := by
    refine makes_entry (grounded.fits.entry_cell plain) ?_ ?_
    · exact copies _ (grounded.of_holds (.declared plain ref))
    · intro key tag found
      exact copies tag (grounded.of_holds (.tag plain key found))
  cases kind with
  | field => exact makes_once (grounded.fits.entry_cell nofun) (entry nofun)
  | method => exact makes_once (grounded.fits.entry_cell nofun) (entry nofun)
  | property =>
    have cell := grounded.fits.property_cell
    refine makes_once cell (makes_property cell ?_ ?_ ?_)
    · intro value found
      exact copies value (grounded.of_holds (.getter found))
    · intro value found
      exact copies value (grounded.of_holds (.setter found))
    · intro key value found
      exact copies value (grounded.of_holds (.propertyTag key found))

theorem makes_members {kind : MemberKind} {ref : Ref} (grounded : source.Grounded (.members kind ref)) :
    Makes source bound (CopyM.members copy kind ref) fun copies =>
      Cell.Image copies (.members kind (source.members ref)) := by
  have reads : Makes source bound (read (·.members ref)) fun _ table => table = source.members ref :=
    makes_readAt grounded.fits.members_cell fun _ => Store.members_eq
  have each (name : String) (member : Ref) (found : (source.members ref).get? name = some member) :=
    (makes_member copies kind (grounded.of_holds (.listed kind name found))).sooner
  refine reads.bind fun _ table same => ?_
  rw [same]
  refine (makes_table_mapM lasting_noted (source.members ref) each).bind fun _ copied agree => ?_
  exact .pure fun more since _ => .members kind (agree.mono (lasting_noted _ _ since))

/-- The induction is on what is copied with the value itself. Cells are left to `copies`, with a smaller
bound. -/
theorem makes_value (v : Value) (grounded : source.Grounded v) :
    Makes source (bound + 1) (value (container copy) v) fun copies => Value.Image copies v := by
  induction v with
  | error id payload ih =>
    refine (ih (grounded.of_holds (.payload id payload))).bind fun _ copied image => ?_
    refine makes_freshId.bind fun _ fresh _ => ?_
    exact .pure fun more _ since => .error id fresh (image.mono since)
  | function ref =>
    refine (makes_read _).bind fun _ source _ => ?_
    refine (makes_alloc _).bind fun _ fresh _ => ?_
    exact .pure fun _ _ _ => .function ref fresh
  | bound id hold callee receiver ih _ =>
    refine (ih (grounded.of_holds (.callee id hold callee receiver))).bind fun _ copied image => ?_
    refine makes_freshId.bind fun _ fresh _ => ?_
    exact .pure fun more _ since => .bound id fresh hold receiver (image.mono since)
  | array handle ref =>
    have cell := grounded.fits.array_cell
    have contents := makes_elements cell fun value member =>
      copies value (grounded.of_holds (.contains (.element handle member)))
    refine (makes_once cell contents).bind fun _ copied found => ?_
    exact .pure fun more since => .array handle (since _ _ found)
  | map handle ref =>
    have cell := grounded.fits.map_cell
    have contents := makes_entries cell fun key value found =>
      copies value (grounded.of_holds (.contains (.entry handle key found)))
    have image : Makes source bound (CopyM.entries copy ref) fun copies =>
        Cell.Image copies (.map (source.entries ref)) := by
      refine contents.weaken ?_
      intro _ _ contained
      obtain ⟨copied, rfl, agree⟩ := contained
      exact .map agree
    refine (makes_once cell image).bind fun _ copied found => ?_
    exact .pure fun more since => .map handle (since _ _ found)
  | object ref =>
    have made := makes_object grounded.fits.object_cell grounded.fits.storage_cell fun key value found =>
      copies value (grounded.of_holds (.contains (.field key found)))
    refine made.bind fun _ copied found => ?_
    exact .pure fun more since => .object (since _ _ found)
  | member kind ref =>
    refine (makes_member copies kind grounded).bind fun _ copied found => ?_
    exact .pure fun more since => .member kind (since _ _ found)
  | members kind ref =>
    refine (makes_once grounded.fits.members_cell (makes_members copies grounded)).bind
      fun _ copied found => ?_
    exact .pure fun more since => .members kind (since _ _ found)
  | _ => exact .pure fun _ => .same trivial

end Values

/-- With more steps allowed than there are cells to copy, a copy is made to its end. -/
theorem makes_within (fuel : Nat) (v : Value) (grounded : source.Grounded v) :
    Makes source fuel (within fuel v) fun copies => Value.Image copies v := by
  induction fuel generalizing v with
  | zero => exact fun _ _ few => absurd few (Nat.not_lt_zero _)
  | succ fuel ih => exact makes_value ih v grounded

end CopyM

end ScriptMachine
