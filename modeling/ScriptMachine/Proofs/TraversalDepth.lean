import ScriptMachine.Proofs.CopyDepth
import ScriptMachine.Proofs.DeepCopy
import ScriptMachine.Value.Display

/-! How deep comparing and writing nest. A comparison enters each pair of containers once, and a text
opens each container once below itself, so both go no deeper than there are pairs and cells. -/

namespace ScriptMachine.Store

theorem equalIn_eq_unrolled (store : Store) (order : VisitOrder) (fuel : Nat) :
    store.equalIn order fuel = unrolled (store.equalWith order) (fun _ _ => return false) fuel := by
  induction fuel with
  | zero => rfl
  | succ fuel ih => rw [equalIn, unrolled, ih]

section Comparisons

variable {size bound : Nat}

/-- Comparisons that do the same as long as fewer than `bound` pairs are left to be entered, and leave
no more of them. -/
def Alike (size bound : Nat) (act other : StateM Entered Bool) : Prop :=
  ∀ before, remaining size before < bound →
    act.run before = other.run before ∧ remaining size (act.run before).2 ≤ remaining size before

theorem Alike.pure (result : Bool) : Alike size bound (Pure.pure result) (Pure.pure result) :=
  fun _ _ => ⟨rfl, Nat.le_refl _⟩

theorem Alike.both {act other rest last : StateM Entered Bool} (first : Alike size bound act other)
    (next : Alike size bound rest last) :
    Alike size bound (do if ← act then rest else return false)
      (do if ← other then last else return false) := by
  intro before few
  obtain ⟨same, fewer⟩ := first before few
  simp only [StateT.run_bind, ← same]
  cases result : act.run before with
  | mk success middle =>
    rw [result] at fewer
    cases success with
    | false => exact ⟨rfl, fewer⟩
    | true =>
      obtain ⟨equal, fewest⟩ := next middle (Nat.lt_of_le_of_lt fewer few)
      exact ⟨equal, Nat.le_trans fewest fewer⟩

/-- A pair of cells that is entered is one fewer to enter; cells that do not exist hold nothing. -/
theorem alike_enterPair {kind : ContainerKind} {first second : Ref} {compare other : StateM Entered Bool}
    (inside : first < size → second < size → Alike size bound compare other)
    (outside : ¬(first < size ∧ second < size) → ∀ bound, Alike size bound compare other) :
    Alike size (bound + 1) (enterPair kind first second compare) (enterPair kind first second other) := by
  intro before few
  have grows : ∀ pair ∈ before, pair ∈ before.insert (kind, first, second) :=
    fun _ member => mem_insert_pair.mpr (.inr member)
  have fewer : remaining size (before.insert (kind, first, second)) ≤ remaining size before :=
    remaining_le grows
  rw [run_enterPair, run_enterPair]
  by_cases same : first = second
  · rw [if_pos same, if_pos same]
    exact ⟨rfl, Nat.le_refl _⟩
  rw [if_neg same, if_neg same]
  by_cases known : (kind, first, second) ∈ before
  · rw [if_pos known, if_pos known]
    exact ⟨rfl, fewer⟩
  rw [if_neg known, if_neg known]
  by_cases exist : first < size ∧ second < size
  · have less := remaining_insert_lt exist.1 exist.2 known
    obtain ⟨equal, fewest⟩ := inside exist.1 exist.2 _ (Nat.lt_of_lt_of_le less (Nat.le_of_lt_succ few))
    exact ⟨equal, Nat.le_trans fewest fewer⟩
  · obtain ⟨equal, fewest⟩ := outside exist _ _ (Nat.lt_succ_self _)
    exact ⟨equal, Nat.le_trans fewest fewer⟩

variable {equal other : Value → Value → StateM Entered Bool}
  (alike : ∀ v w, Alike size bound (equal v w) (other v w))

include alike

theorem alike_equalLists (firsts seconds : List Value) :
    Alike size bound (equalLists equal firsts seconds) (equalLists other firsts seconds) := by
  induction firsts generalizing seconds with
  | nil => cases seconds <;> exact .pure _
  | cons first firsts ih =>
    cases seconds with
    | nil => exact .pure false
    | cons second seconds => exact (alike first second).both (ih seconds)

theorem alike_equalArrays (first second : Array Value) :
    Alike size bound (equalArrays equal first second) (equalArrays other first second) := by
  unfold equalArrays
  split
  · exact alike_equalLists alike _ _
  · exact .pure false

theorem alike_equalEntries (table : Table Value) (listed : List (String × Value)) :
    Alike size bound (equalEntries equal table listed) (equalEntries other table listed) := by
  induction listed with
  | nil => exact .pure true
  | cons entry rest ih =>
    obtain ⟨key, value⟩ := entry
    unfold equalEntries
    split
    · exact .pure false
    · exact (alike value _).both ih

theorem alike_equalTables (listed : List (String × Value)) (first second : Table Value) :
    Alike size bound (equalTables equal listed first second)
      (equalTables other listed first second) := by
  unfold equalTables
  split
  · exact alike_equalEntries alike second listed
  · exact .pure false

end Comparisons

section Outside

variable {store : Store} {bound : Nat} {equal other : Value → Value → StateM Entered Bool}

theorem alike_equalArrays_empty {first second : Array Value} {size : Nat}
    (nothing : first = #[] ∨ second = #[]) :
    Alike size bound (equalArrays equal first second) (equalArrays other first second) := by
  unfold equalArrays
  split
  next same =>
    have both : first = #[] ∧ second = #[] := by
      rcases nothing with rfl | rfl
      · exact ⟨rfl, Array.eq_empty_of_size_eq_zero same.symm⟩
      · exact ⟨Array.eq_empty_of_size_eq_zero same, rfl⟩
    obtain ⟨rfl, rfl⟩ := both
    exact .pure true
  next => exact .pure false

theorem alike_equalTables_empty {listed : List (String × Value)} {first second : Table Value}
    {size : Nat} (nothing : first = ∅ ∨ second = ∅) :
    Alike size bound (equalTables equal listed first second)
      (equalTables other listed first second) := by
  unfold equalTables
  split
  next same =>
    have empty : second.size = 0 := by
      rcases nothing with rfl | rfl
      · exact same.symm
      · rfl
    have missing (key : String) : second.get? key = none := by
      rw [Option.eq_none_iff_forall_ne_some]
      intro value found
      have member : key ∈ second.keys := (second.mem_keys_iff key).mpr ⟨value, found⟩
      rw [List.eq_nil_of_length_eq_zero (second.length_keys.trans empty)] at member
      cases member
    cases listed with
    | nil => exact .pure true
    | cons entry rest =>
      simp only [equalEntries, missing]
      exact .pure false
  next => exact .pure false

theorem empty_of_outside {first second : Ref} {view : Ref → Table Value}
    (empty : ∀ ref, ¬ref < store.cells.size → view ref = ∅)
    (outside : ¬(first < store.cells.size ∧ second < store.cells.size)) :
    view first = ∅ ∨ view second = ∅ := by
  by_cases exist : first < store.cells.size
  · exact .inr (empty second fun other => outside ⟨exist, other⟩)
  · exact .inl (empty first exist)

end Outside

variable {store : Store} {bound : Nat}

/-- Two values are compared alike if what they hold is. -/
theorem alike_equalWith {order : VisitOrder} {equal other : Value → Value → StateM Entered Bool}
    (alike : ∀ v w, Alike store.cells.size bound (equal v w) (other v w)) (v w : Value) :
    Alike store.cells.size (bound + 1) (store.equalWith order equal v w)
      (store.equalWith order other v w) := by
  unfold equalWith
  split
  next => exact .pure true
  next => exact .pure true
  next => exact .pure _
  next => exact .pure _
  next => exact .pure _
  next => exact .pure _
  next => exact .pure _
  next => exact .pure _
  next a _ b =>
    refine alike_enterPair (fun _ _ => alike_equalArrays alike _ _) fun outside bound => ?_
    refine alike_equalArrays_empty ?_
    by_cases exist : a < store.cells.size
    · exact .inr (elements_outside fun other => outside ⟨exist, other⟩)
    · exact .inl (elements_outside exist)
  next a _ b =>
    refine alike_enterPair (fun _ _ => alike_equalTables alike _ _ _) fun outside bound => ?_
    exact alike_equalTables_empty (empty_of_outside (fun _ => entries_outside) outside)
  next a b =>
    split
    · exact .pure true
    split
    · refine alike_enterPair (fun _ _ => alike_equalTables alike _ _ _) fun outside bound => ?_
      exact alike_equalTables_empty (empty_of_outside (fun _ => valuesOf_outside) outside)
    · exact .pure false
  all_goals exact .pure _

/-- With more rounds than pairs to enter, it does not matter what would come after them. -/
theorem alike_unrolled (order : VisitOrder) (beyond other : Value → Value → StateM Entered Bool)
    (rounds : Nat) (v w : Value) :
    Alike store.cells.size rounds (unrolled (store.equalWith order) beyond rounds v w)
      (unrolled (store.equalWith order) other rounds v w) := by
  induction rounds generalizing v w with
  | zero => exact fun _ few => absurd few (Nat.not_lt_zero _)
  | succ rounds ih => exact alike_equalWith ih v w

/-- A comparison goes no deeper than there are pairs of containers. -/
theorem equalVisiting_unrolled (store : Store) (order : VisitOrder) (v w : Value)
    (beyond : Value → Value → StateM Entered Bool) {rounds : Nat}
    (enough : 3 * (store.cells.size * store.cells.size) < rounds) :
    ((unrolled (store.equalWith order) beyond rounds v w).run ∅).1 =
      store.equalVisiting order v w := by
  let least := 3 * (store.cells.size * store.cells.size) + 1
  obtain ⟨more, rfl⟩ : ∃ more, rounds = least + more := Nat.exists_eq_add_of_le enough
  have few : remaining store.cells.size ∅ < least := by
    rw [remaining_empty]
    exact Nat.lt_succ_self _
  obtain ⟨same, -⟩ := alike_unrolled order (unrolled (store.equalWith order) beyond more)
    (fun _ _ => return false) least v w ∅ few
  rw [← unrolled_add, ← equalIn_eq_unrolled] at same
  exact congrArg Prod.fst same

section Writing

/-- One round of a text: `write` writes what the containers at hand hold. -/
def writeRound (store : Store) (write : Path → Value → Writer) (path : Path) : Value → Writer :=
  Value.writeWith store (store.writeContainer write path)

theorem write_eq_unrolled (store : Store) (fuel : Nat) :
    store.write fuel =
      unrolled store.writeRound (fun _ => Value.writeWith store fun _ => id) fuel := by
  induction fuel with
  | zero => rfl
  | succ fuel ih =>
    rw [unrolled, ← ih]
    rfl

def closed (size : Nat) (path : Path) : Nat :=
  ((Finset.range size).filter fun ref => path.contains ref = false).card

theorem closed_insert_lt {size : Nat} {path : Path} {ref : Ref} (inside : ref < size)
    (fresh : path.contains ref = false) : closed size (path.insert ref) < closed size path := by
  apply Finset.card_lt_card
  refine ⟨?_, fun same => ?_⟩
  · intro other member
    rw [Finset.mem_filter, Std.TreeSet.contains_insert, Bool.or_eq_false_iff] at member
    exact Finset.mem_filter.mpr ⟨member.1, member.2.2⟩
  · have member := same (Finset.mem_filter.mpr ⟨Finset.mem_range.mpr inside, fresh⟩)
    rw [Finset.mem_filter, Std.TreeSet.contains_insert_self] at member
    cases member.2

theorem closed_le_size (size : Nat) (path : Path) : closed size path ≤ size := by
  refine (Finset.card_filter_le _ _).trans ?_
  rw [Finset.card_range]

variable {write other : Path → Value → Writer} {path : Path}

theorem writeEntries_congr (table : Table Value) {write other : Value → Writer}
    (alike : table = ∅ ∨ write = other) : writeEntries write table = writeEntries other table := by
  rcases alike with rfl | rfl
  · rfl
  · rfl

/-- A container is written alike if, below it, what it holds is. One that does not exist holds nothing
or the undefined value. -/
theorem writeContainer_congr
    (alike : ∀ ref < store.cells.size, path.contains ref = false →
      write (path.insert ref) = other (path.insert ref))
    (undefined : ∀ path, write path .undefined = other path .undefined) :
    store.writeContainer write path = store.writeContainer other path := by
  funext v
  cases v with
  | array handle ref =>
    simp only [writeContainer]
    split
    next => rfl
    next fresh =>
      by_cases inside : ref < store.cells.size
      · rw [alike ref inside (Bool.eq_false_of_not_eq_true fresh)]
      · rw [elements_outside inside]
        rfl
  | map handle ref =>
    simp only [writeContainer]
    split
    next => rfl
    next fresh =>
      refine writeEntries_congr _ ?_
      by_cases inside : ref < store.cells.size
      · exact .inr (alike ref inside (Bool.eq_false_of_not_eq_true fresh))
      · exact .inl (entries_outside inside)
  | object ref =>
    simp only [writeContainer]
    split
    next => rfl
    next fresh =>
      refine congrArg _ (writeEntries_congr _ ?_)
      by_cases inside : ref < store.cells.size
      · exact .inr (alike ref inside (Bool.eq_false_of_not_eq_true fresh))
      · exact .inl (valuesOf_outside inside)
  | member kind ref =>
    simp only [writeContainer]
    split
    next => rfl
    next fresh =>
      by_cases inside : ref < store.cells.size
      · rw [alike ref inside (Bool.eq_false_of_not_eq_true fresh)]
      · have nothing : (store.entry ref).value = .undefined := by
          rw [entry, Array.getElem?_eq_none (Nat.le_of_not_lt inside)]
        rw [nothing, undefined]
  | _ => rfl

/-- With more rounds than containers to open, it does not matter what would come after them. -/
theorem unrolled_write_congr (write other : Path → Value → Writer)
    (undefined : ∀ path, write path .undefined = other path .undefined) {rounds : Nat}
    (enough : closed store.cells.size path < rounds) :
    unrolled store.writeRound write rounds path = unrolled store.writeRound other rounds path := by
  induction rounds generalizing path with
  | zero => exact absurd enough (Nat.not_lt_zero _)
  | succ rounds ih =>
    refine congrArg (Value.writeWith store) (writeContainer_congr ?_ fun path => ?_)
    · intro ref inside fresh
      have less := closed_insert_lt inside fresh
      exact ih (Nat.lt_of_lt_of_le less (Nat.le_of_lt_succ enough))
    · cases rounds with
      | zero => exact undefined path
      | succ rounds => rfl

/-- A text goes no deeper than there are cells. -/
theorem display_unrolled (store : Store) (v : Value) (beyond : Path → Value → Writer) {rounds : Nat}
    (enough : store.depth < rounds) :
    unrolled store.writeRound beyond rounds ∅ v "" = store.display v := by
  obtain ⟨more, rfl⟩ : ∃ more, rounds = store.depth + (more + 1) :=
    ⟨rounds - store.depth - 1, by omega⟩
  have few : closed store.cells.size ∅ < store.depth :=
    Nat.lt_succ_of_le (closed_le_size _ _)
  have same := unrolled_write_congr (unrolled store.writeRound beyond (more + 1))
    (fun _ => Value.writeWith store fun _ => id) (fun _ => rfl) few
  rw [unrolled_add, same, ← write_eq_unrolled, display]

end Writing

/-- Copying, comparing and writing come to an end on every store, however its containers hold each
other: followed for more rounds than its size allows for, the three give what they give by
definition, whatever would be done after those rounds. -/
theorem traversals_end (store : Store) :
    (∀ v, store.Grounded v → ∀ beyond rounds, store.cells.size < rounds →
      (StoreM.copying (unrolled CopyM.round beyond rounds v)).run store =
        (StoreM.copy v).run store) ∧
    (∀ order v w beyond rounds, 3 * (store.cells.size * store.cells.size) < rounds →
      ((unrolled (store.equalWith order) beyond rounds v w).run ∅).1 =
        store.equalVisiting order v w) ∧
    (∀ v beyond rounds, store.cells.size + 1 < rounds →
      unrolled store.writeRound beyond rounds ∅ v "" = store.display v) := by
  refine ⟨?_, ?_, ?_⟩
  · intro v grounded beyond rounds enough
    exact StoreM.copying_unrolled grounded beyond enough
  · intro order v w beyond rounds enough
    exact store.equalVisiting_unrolled order v w beyond enough
  · intro v beyond rounds enough
    exact store.display_unrolled v beyond enough

/-- An instance that an error in one of its values leads back to, and so does a field in another, by
its tag and by the method it declares, which leads back to the field, too. A second instance of the
type has the same values. -/
def knot : Store where
  cells := #[.object { type := 3, values := 1 },
    .map ((Table.empty.insert "cause" (.error 0 (.object 0))).insert "field" (.member .field 2)),
    .entry {
      value := .bound 1 .weak (.error 2 (.member .field 2)) (.object 0)
      tags := Table.empty.insert "owner" (.object 0) },
    .type { name := "Knot", fields := 4, methods := 5, properties := 6 },
    .members .field ∅, .members .method ∅, .members .property ∅,
    .object { type := 3, values := 8 },
    .map ((Table.empty.insert "cause" (.error 0 (.object 0))).insert "field" (.member .field 2))]

theorem knot_reached {held : Value} (reached : knot.Reaches (.object 0) held) :
    held = .object 0 ∨ held = .error 0 (.object 0) ∨ held = .member .field 2 ∨
      held = .bound 1 .weak (.error 2 (.member .field 2)) (.object 0) ∨
      held = .error 2 (.member .field 2) := by
  induction reached with
  | refl => exact .inl rfl
  | tail _ holds ih =>
    rcases ih with rfl | rfl | rfl | rfl | rfl
    · cases holds with
      | contains inside =>
        cases inside with
        | field key found =>
          simp only [knot, valuesOf, object, entries, List.getElem?_toArray, List.getElem?_cons_zero,
            List.getElem?_cons_succ, Table.get?_insert, Table.get?_empty] at found
          grind
    · cases holds with
      | contains inside => cases inside
      | payload => exact .inl rfl
    · cases holds with
      | contains inside => cases inside
      | declared => exact .inr (.inr (.inr (.inl rfl)))
      | tag plain key found =>
        simp only [knot, entry, List.getElem?_toArray, List.getElem?_cons_zero,
            List.getElem?_cons_succ, Table.get?_insert, Table.get?_empty] at found
        grind
    · cases holds with
      | contains inside => cases inside
      | callee => simp
    · cases holds with
      | contains inside => cases inside
      | payload => simp

theorem traversals_end_knot :
    knot.Grounded (.object 0) ∧
    (StoreM.copying (unrolled CopyM.round (fun _ => return .undefined) 10 (.object 0))).run knot =
      (StoreM.copy (.object 0)).run knot ∧
    ((unrolled (knot.equalWith fun _ entries => entries.reverse) (fun _ _ => return false) 244
      (.object 0) (.object 7)).run ∅).1 =
        knot.equalVisiting (fun _ entries => entries.reverse) (.object 0) (.object 7) ∧
    unrolled knot.writeRound (fun _ _ => .text "?") 11 ∅ (.object 0) "" = knot.display (.object 0) := by
  have grounded : knot.Grounded (.object 0) := by
    intro held reached
    rcases knot_reached reached with rfl | rfl | rfl | rfl | rfl
    · exact .object _ _ rfl rfl
    · exact .other fun ref occupies => by cases occupies
    · exact .member (by decide) _ rfl
    · exact .other fun ref occupies => by cases occupies
    · exact .other fun ref occupies => by cases occupies
  obtain ⟨copies, compares, writes⟩ := traversals_end knot
  exact ⟨grounded, copies _ grounded _ _ (by decide), compares _ _ _ _ _ (by decide),
    writes _ _ _ (by decide)⟩

end ScriptMachine.Store
