import ScriptMachine.Value.Slice
import ScriptMachine.Proofs.EqualityLaws
import ScriptMachine.Proofs.ExactOperators
import ScriptMachine.Proofs.KeptCells

/-! Parts of sequences. Arrays, texts and bytes are one kind of thing here, a list of items, and what a part
holds is said of that list. The parts before and after a position, put together, are the sequence again. -/

namespace ScriptMachine

/-- The families of sequences. Writable and frozen arrays are one. -/
inductive Family where
  | array
  | string
  | bytes

/-- What a sequence is made of. -/
inductive Item where
  | element (value : Value)
  | character (char : Char)
  | octet (byte : UInt8)

/-- A value is a sequence of items. -/
inductive Store.Comprises (store : Store) : Family → List Item → Value → Prop where
  | array (handle : Handle) {ref : Ref} (elements : Array Value)
      (found : store.cells[ref]? = some (.array elements)) :
      Comprises store .array (elements.toList.map .element) (.array handle ref)
  | string (text : String) : Comprises store .string (text.toList.map .character) (.string text)
  | bytes (data : Array UInt8) : Comprises store .bytes (data.toList.map .octet) (.bytes data)

/-- An array is new in a store if it can be written to and its cell is not there yet. -/
def Store.New (store : Store) : Value → Prop
  | .array handle ref => handle = .writable ∧ store.cells.size ≤ ref
  | _ => True

/-- A sequence of items is made: it is new, and all that was there is in the later store as it was. -/
structure Store.Makes (store : Store) (family : Family) (items : List Item) (made : Value)
    (later : Store) : Prop where
  kept : store.Kept later
  new : store.New made
  comprises : later.Comprises family items made

/-- A bound of a part, and the number that it is: that of an open end is given. -/
inductive Value.Bounds (openEnd : Int) : Value → Int → Prop where
  | undefined : Bounds openEnd .undefined openEnd
  | int (number : Int64) : Bounds openEnd (.int number) number.toInt

/-- A sequence that is not too long to be the result of an operator. -/
def Value.WithinCeiling : Value → Prop
  | .string text => text.utf8ByteSize ≤ maxStringSize
  | .bytes data => data.size ≤ maxBytesSize
  | _ => True

/-- The items at positions between two bounds, in order. -/
def itemsBetween {α : Type} (items : List α) (low high : Int) : List α :=
  (items.zipIdx.filter fun item => max low 0 ≤ item.2 ∧ item.2 < min high items.length).map Prod.fst

/-- The parts of a sequence before and after a position, put together. -/
def Value.rejoin (sequence position : Value) : StoreM Value := do
  let front ← slice sequence .undefined position
  let back ← slice sequence position .undefined
  binary .add front back

section Positions

variable {α : Type}

theorem filter_zipIdx (items : List α) (first last offset : Nat) :
    ((items.zipIdx offset).filter fun item => first ≤ item.2 ∧ item.2 < last).map Prod.fst =
      (items.drop (first - offset)).take (last - max first offset) := by
  induction items generalizing offset with
  | nil => rw [List.drop_nil, List.take_nil]; rfl
  | cons item rest ih =>
    rw [List.zipIdx_cons]
    by_cases before : offset < first
    · have left : first - offset = first - (offset + 1) + 1 := by omega
      rw [List.filter_cons_of_neg (by simp; omega), ih, left, List.drop_succ_cons]
      congr 1
      omega
    · rw [show first - offset = 0 by omega, List.drop_zero]
      have rest := ih (offset + 1)
      rw [show first - (offset + 1) = 0 by omega, List.drop_zero] at rest
      by_cases inside : offset < last
      · rw [List.filter_cons_of_pos (by simp; omega), List.map_cons, rest,
          show last - max first offset = last - max first (offset + 1) + 1 by omega, List.take_succ_cons]
      · rw [List.filter_cons_of_neg (by simp; omega), rest, show last - max first offset = 0 by omega,
          show last - max first (offset + 1) = 0 by omega, List.take_zero, List.take_zero]

theorem itemsBetween_eq (items : List α) (low high : Int) :
    itemsBetween items low high = (items.drop (min low.toNat items.length)).take
      (min high.toNat items.length - min low.toNat items.length) := by
  have filtered := filter_zipIdx items low.toNat (min high.toNat items.length) 0
  unfold itemsBetween
  have same : (fun item : α × Nat => decide (max low 0 ≤ item.2 ∧ item.2 < min high items.length)) =
      fun item => decide (low.toNat ≤ item.2 ∧ item.2 < min high.toNat items.length) := by
    funext item
    rw [decide_eq_decide]
    omega
  rw [same, filtered]
  by_cases inside : low.toNat ≤ items.length
  · rw [Nat.min_eq_left inside, Nat.sub_zero, Nat.max_eq_left (Nat.zero_le _)]
  · rw [List.drop_eq_nil_of_le (by omega), List.drop_eq_nil_of_le (by omega), List.take_nil, List.take_nil]

theorem itemsBetween_before (items : List α) (position : Nat) :
    itemsBetween items 0 position = items.take position := by
  rw [itemsBetween_eq]
  simp [List.take_eq_take_iff]

theorem itemsBetween_after {items : List α} {position : Nat} (inside : position ≤ items.length) :
    itemsBetween items position items.length = items.drop position := by
  rw [itemsBetween_eq]
  simp [inside]

end Positions

namespace Store.Comprises

variable {store later : Store} {family : Family} {items : List Item} {sequence twin : Value}

theorem kept (comprises : store.Comprises family items sequence) (kept : store.Kept later) :
    later.Comprises family items sequence := by
  cases comprises with
  | array handle elements found => exact .array handle elements (kept _ _ found)
  | string text => exact .string text
  | bytes data => exact .bytes data

/-- Sequences of the same items are the same, unless they are arrays, which have the same elements. -/
theorem unique (comprises : store.Comprises family items sequence)
    (same : later.Comprises family items twin) :
    twin = sequence ∨ ∃ handle handle' ref ref', sequence = .array handle ref ∧ twin = .array handle' ref' ∧
      later.elements ref' = store.elements ref := by
  generalize listed : items = items' at same
  cases same with
  | @array handle' ref' elements' found' =>
    cases comprises with
    | @array handle ref elements found =>
      have equal := List.map_injective_iff.mpr (fun _ _ => Item.element.inj) listed
      refine .inr ⟨handle, handle', ref, ref', rfl, rfl, ?_⟩
      simp only [Store.elements, found, found', Array.toList_inj.mp equal]
  | string text' =>
    cases comprises with
    | string text =>
      have equal := List.map_injective_iff.mpr (fun _ _ => Item.character.inj) listed
      rw [String.toList_inj.mp equal]
      exact .inl rfl
  | bytes data' =>
    cases comprises with
    | bytes data =>
      have equal := List.map_injective_iff.mpr (fun _ _ => Item.octet.inj) listed
      rw [Array.toList_inj.mp equal]
      exact .inl rfl

theorem withinCeiling (comprises : store.Comprises family items sequence)
    (same : later.Comprises family items twin) (within : sequence.WithinCeiling) : twin.WithinCeiling := by
  rcases comprises.unique same with rfl | ⟨handle, handle', ref, ref', -, rfl, -⟩
  · exact within
  · trivial

end Store.Comprises

section Parts

variable {store : Store} {low high sequence : Value} {first last : Int} {size : Nat} {family : Family}
  {items : List Item}

theorem Value.Bounds.sliceBound_eq {openEnd : Int} (bound : Bounds openEnd low first) :
    sliceBound store openEnd low = .ok first := by
  cases bound <;> rfl

variable (store) in
theorem sliceBounds_of_lt (lower : Value.Bounds 0 low first) (upper : Value.Bounds size high last)
    (reversed : last < first) :
    Value.sliceBounds store low high size = .error (.invalidSliceIndex first last) := by
  simp only [Value.sliceBounds, lower.sliceBound_eq, upper.sliceBound_eq, Bind.bind, Except.bind]
  rw [dif_neg (by omega)]
  rfl

variable (store) in
theorem sliceBounds_of_le (lower : Value.Bounds 0 low first) (upper : Value.Bounds size high last)
    (ordered : first ≤ last) :
    ∃ span : Span size, Value.sliceBounds store low high size = .ok span ∧
      span.first = min first.toNat size ∧ span.last = min last.toNat size := by
  simp only [Value.sliceBounds, lower.sliceBound_eq, upper.sliceBound_eq, Bind.bind, Except.bind]
  rw [dif_pos ordered]
  exact ⟨_, rfl, rfl, rfl⟩

theorem new_array {elements : Array Value} {part : Value} {after : Store}
    (made : StoreM.newArray elements .writable store = .ok part after) :
    store.Makes .array (elements.toList.map .element) part after := by
  cases made
  refine ⟨.push store _, ⟨rfl, Nat.le_refl _⟩, .array .writable elements ?_⟩
  exact Array.getElem?_push_size

/-- Sequences are cut in the same way whatever they are made of: the bounds are looked at first, and then
the items are taken. -/
theorem exists_cut (comprises : store.Comprises family items sequence) (low high : Value) :
    ∃ (size : Nat) (cut : Nat → Nat → StoreM Value), size = items.length ∧
      (Value.slice sequence low high store = match Value.sliceBounds store low high size with
        | .ok span => cut span.first span.last store
        | .error fault => .error fault store) ∧
      ∀ first last, first ≤ last → ∃ part after, cut first last store = .ok part after ∧
        store.Makes family ((items.drop first).take (last - first)) part after := by
  cases comprises with
  | @array handle ref elements found =>
    have held : store.elements ref = elements := Store.elements_eq found
    subst held
    refine ⟨(store.elements ref).size,
      fun first last => StoreM.newArray ((store.elements ref).extract first last) .writable, ?_, ?_,
      fun first last _ => ⟨_, _, rfl, ?_⟩⟩
    · rw [List.length_map, Array.length_toList]
    · rw [Value.slice, StoreM.run_get_bind]
      dsimp only
      cases Value.sliceBounds store low high (store.elements ref).size <;> rfl
    · rw [← List.map_drop, ← List.map_take, ← List.extract_eq_take_drop, ← Array.toList_extract]
      exact new_array rfl
  | string text =>
    refine ⟨text.length, fun first last => pure (.string (Text.part text first last)), ?_, ?_,
      fun first last ordered => ⟨_, _, rfl, .refl store, trivial, ?_⟩⟩
    · rw [List.length_map, String.length_toList]
    · rw [Value.slice, StoreM.run_get_bind]
      dsimp only
      cases Value.sliceBounds store low high text.length <;> rfl
    · have listed : store.Comprises .string _ (.string (Text.part text first last)) := .string _
      rwa [Text.part_eq text ordered, String.toList_ofList, List.map_take, List.map_drop,
        ← Text.part_eq text ordered] at listed
  | bytes data =>
    refine ⟨data.size, fun first last => pure (.bytes (data.extract first last)), ?_, ?_,
      fun first last _ => ⟨_, _, rfl, .refl store, trivial, ?_⟩⟩
    · rw [List.length_map, Array.length_toList]
    · rw [Value.slice, StoreM.run_get_bind]
      dsimp only
      cases Value.sliceBounds store low high data.size <;> rfl
    · rw [← List.map_drop, ← List.map_take, ← List.extract_eq_take_drop, ← Array.toList_extract]
      exact .bytes _

theorem slice_refused (comprises : store.Comprises family items sequence) (lower : Value.Bounds 0 low first)
    (upper : Value.Bounds items.length high last) (reversed : last < first) :
    Value.slice sequence low high store = .error (.invalidSliceIndex first last) store := by
  obtain ⟨size, cut, counted, sliced, -⟩ := exists_cut comprises low high
  rw [← counted] at upper
  rw [sliced, sliceBounds_of_lt store lower upper reversed]

theorem slice_exact (comprises : store.Comprises family items sequence) (lower : Value.Bounds 0 low first)
    (upper : Value.Bounds items.length high last) (ordered : first ≤ last) :
    ∃ part after, Value.slice sequence low high store = .ok part after ∧
      store.Makes family (itemsBetween items first last) part after := by
  obtain ⟨size, cut, counted, sliced, exact⟩ := exists_cut comprises low high
  rw [itemsBetween_eq, ← counted]
  rw [← counted] at upper
  obtain ⟨span, bounds, start, stop⟩ := sliceBounds_of_le store lower upper ordered
  have taken := exact span.first span.last span.ordered
  rw [sliced, bounds, ← start, ← stop]
  exact taken

/-- Sequences of one family are joined by adding one to the other, unless the whole is too long. -/
theorem add_exact {left right : Value} {one other : List Item} (first : store.Comprises family one left)
    (second : store.Comprises family other right)
    (within : ∀ whole, store.Comprises family (one ++ other) whole → whole.WithinCeiling) :
    ∃ whole after, Value.binary .add left right store = .ok whole after ∧
      store.Makes family (one ++ other) whole after := by
  cases first with
  | @array handle ref elements found =>
    cases second with
    | @array handle' ref' elements' found' =>
      have held : store.elements ref = elements := Store.elements_eq found
      have held' : store.elements ref' = elements' := Store.elements_eq found'
      subst held held'
      refine ⟨_, _, rfl, ?_⟩
      rw [← List.map_append, ← Array.toList_append]
      exact new_array rfl
  | string text =>
    cases second with
    | string text' =>
      have listed : store.Comprises .string _ (.string (text ++ text')) := .string _
      rw [String.toList_append, List.map_append] at listed
      have short : (text ++ text').utf8ByteSize ≤ maxStringSize := within _ listed
      rw [String.utf8ByteSize_append] at short
      have plain : ∀ handle ref, Value.string text ≠ .array handle ref := by simp
      refine ⟨.string (text ++ text'), store, Operator.binary_of_some plain ?_, .refl store, trivial,
        listed⟩
      exact if_neg (Nat.not_lt.mpr short)
  | bytes data =>
    cases second with
    | bytes data' =>
      have listed : store.Comprises .bytes _ (.bytes (data ++ data')) := .bytes _
      rw [Array.toList_append, List.map_append] at listed
      have short : (data ++ data').size ≤ maxBytesSize := within _ listed
      rw [Array.size_append] at short
      have plain : ∀ handle ref, Value.bytes data ≠ .array handle ref := by simp
      refine ⟨.bytes (data ++ data'), store, Operator.binary_of_some plain ?_, .refl store, trivial, listed⟩
      exact if_neg (Nat.not_lt.mpr short)

end Parts

section Rejoined

variable {store : Store} {sequence whole : Value} {family : Family} {items : List Item}

theorem rejoin_exact (comprises : store.Comprises family items sequence) (within : sequence.WithinCeiling)
    (position : Int64) (positive : 0 ≤ position.toInt) (inside : position.toInt ≤ items.length) :
    ∃ whole after, Value.rejoin sequence (.int position) store = .ok whole after ∧
      store.Makes family items whole after := by
  obtain ⟨front, middle, cutFront, keptFront, -, fronts⟩ :=
    slice_exact comprises .undefined (.int position) positive
  have same := comprises.kept keptFront
  obtain ⟨back, last, cutBack, keptBack, -, backs⟩ :=
    slice_exact same (.int position) .undefined inside
  obtain ⟨count, counted⟩ := Int.eq_ofNat_of_zero_le positive
  rw [counted, itemsBetween_before] at fronts
  rw [counted, itemsBetween_after (by omega)] at backs
  obtain ⟨whole, after, added, keptWhole, new, listed⟩ := add_exact (fronts.kept keptBack) backs
    fun whole listed => by
      rw [List.take_append_drop] at listed
      exact (same.kept keptBack).withinCeiling listed within
  rw [List.take_append_drop] at listed
  have before := keptFront.trans keptBack
  refine ⟨whole, after, ?_, before.trans keptWhole, ?_, listed⟩
  · simp only [Value.rejoin, Bind.bind, EStateM.bind, cutFront, cutBack, added]
  · cases whole with
    | array handle ref => exact ⟨new.1, before.size_le.trans new.2⟩
    | _ => trivial

/-- Arrays with the same elements are equal unless one of these is no number. -/
theorem equal_arrays_iff {first second : Ref} (apart : first ≠ second) (handle handle' : Handle)
    (same : store.elements first = store.elements second) :
    store.equal (.array handle first) (.array handle' second) = true ↔
      ∀ x, .float x ∈ (store.elements second).toList → x.isNaN = false := by
  constructor
  · intro equal x held
    have alike : List.Forall₂ (fun v w => store.equal v w = true) (store.elements second).toList
        (store.elements second).toList := by
      cases Store.agrees_of_equal equal with
      | array _ _ alike =>
        rw [Store.HoldAlike, same] at alike
        exact alike
      | sameArray => exact absurd rfl apart
    have self := List.forall₂_same.mp alike (.float x) held
    exact Store.equal_self_iff.mp self x rfl
  · intro proper
    let related (v w : Value) : Prop :=
      v = .array handle first ∧ w = .array handle' second ∨ store.equal v w = true
    have closed (v w : Value) (holds : related v w) : store.Agrees related v w := by
      rcases holds with ⟨rfl, rfl⟩ | equal
      · refine .array handle handle' ?_
        rw [Store.HoldAlike, same, List.forall₂_same]
        exact fun held among => .inr (Store.equal_self_iff.mpr fun x is => proper x (is ▸ among))
      · exact (Store.agrees_of_equal equal).mono fun _ _ _ => Store.HoldAlike.mono fun _ _ => .inr
    exact Store.equal_of_related closed (.inl ⟨rfl, rfl⟩)

/-- A new sequence with the items of one that was there is equal to it if its elements are to themselves. -/
theorem Store.Makes.equal_iff {later : Store} (makes : store.Makes family items whole later)
    (comprises : store.Comprises family items sequence) :
    later.equal whole sequence = true ↔ ∀ x, .element (.float x) ∈ items → x.isNaN = false := by
  obtain ⟨kept, new, listed⟩ := makes
  rcases (comprises.kept kept).unique listed with rfl | ⟨handle, handle', ref, ref', rfl, rfl, same⟩
  · rw [Store.equal_self_iff]
    cases comprises with
    | array handle elements found => exact absurd new.2 (Nat.not_le.mpr (Store.lt_of_getElem?_eq_some found))
    | string text => simp
    | bytes data => simp
  · cases comprises with
    | @array _ _ elements found =>
      have inside : ref < store.cells.size := Store.lt_of_getElem?_eq_some found
      have apart : ref' ≠ ref := Nat.ne_of_gt (Nat.lt_of_lt_of_le inside new.2)
      have held : later.elements ref = elements := Store.elements_eq (kept _ _ found)
      rw [equal_arrays_iff apart _ _ same, held]
      simp only [List.mem_map_of_injective fun _ _ => Item.element.inj]

end Rejoined

/-- A part of a sequence holds exactly the items between its bounds, which are refused if the lower is
above the upper. The parts before and after a position make the sequence up again; the whole is equal to it
unless it is an array with an element that is no number. -/
theorem slices_are_exact {store : Store} {family : Family} {items : List Item} {sequence : Value}
    (comprises : store.Comprises family items sequence) :
    (∀ low high first last, Value.Bounds 0 low first → Value.Bounds items.length high last →
      (last < first →
        Value.slice sequence low high store = .error (.invalidSliceIndex first last) store) ∧
      (first ≤ last → ∃ part after, Value.slice sequence low high store = .ok part after ∧
        store.Makes family (itemsBetween items first last) part after)) ∧
    ∀ position : Int64, 0 ≤ position.toInt → position.toInt ≤ items.length → sequence.WithinCeiling →
      ∃ whole after, Value.rejoin sequence (.int position) store = .ok whole after ∧
        store.Makes family items whole after ∧
        (after.equal whole sequence = true ↔ ∀ x, .element (.float x) ∈ items → x.isNaN = false) := by
  constructor
  · intro low high first last lower upper
    exact ⟨slice_refused comprises lower upper, slice_exact comprises lower upper⟩
  · intro position positive inside within
    obtain ⟨whole, after, rejoined, makes⟩ := rejoin_exact comprises within position positive inside
    exact ⟨whole, after, rejoined, makes, makes.equal_iff comprises⟩

def threeNumbers : Store where
  cells := #[.array #[.int 5, .int 6, .int 7]]

theorem slices_are_exact_threeNumbers :
    Value.slice (.array .frozen 0) (.int 2) (.int 1) threeNumbers =
      .error (.invalidSliceIndex 2 1) threeNumbers ∧
    (∃ part after, Value.slice (.array .frozen 0) (.int 1) .undefined threeNumbers = .ok part after ∧
      threeNumbers.Makes .array [.element (.int 6), .element (.int 7)] part after) ∧
    ∃ whole after, Value.rejoin (.array .frozen 0) (.int 2) threeNumbers = .ok whole after ∧
      after.equal whole (.array .frozen 0) = true := by
  have found : threeNumbers.cells[0]? = some (.array #[.int 5, .int 6, .int 7]) := rfl
  obtain ⟨cut, rejoin⟩ := slices_are_exact (.array .frozen _ found)
  refine ⟨(cut _ _ _ _ (.int 2) (.int 1)).1 (by decide), ?_, ?_⟩
  · exact (cut _ _ _ _ (.int 1) .undefined).2 (by decide)
  · obtain ⟨whole, after, rejoined, -, equal⟩ := rejoin 2 (by decide) (by decide) trivial
    exact ⟨whole, after, rejoined, equal.mpr (by simp)⟩

def loneNaN : Store where
  cells := #[.array #[.float .nan]]

theorem rejoined_loneNaN_differs :
    ∃ whole after, Value.rejoin (.array .writable 0) (.int 1) loneNaN = .ok whole after ∧
      after.equal whole (.array .writable 0) = false := by
  have comprises : loneNaN.Comprises .array [.element (.float .nan)] (.array .writable 0) :=
    .array .writable #[.float .nan] rfl
  obtain ⟨whole, after, rejoined, makes⟩ := rejoin_exact comprises trivial 1 (by decide) (by decide)
  refine ⟨whole, after, rejoined, Bool.eq_false_iff.mpr fun equal => ?_⟩
  have number := (makes.equal_iff comprises).mp equal .nan (List.mem_singleton.mpr rfl)
  rw [Float.isNaN_eq_decide_eq_nan, decide_eq_false_iff_not] at number
  exact number rfl

end ScriptMachine
