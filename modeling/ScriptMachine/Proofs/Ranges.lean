import ScriptMachine.Builtins
import Mathlib.Algebra.Order.Floor.Semifield
import Mathlib.Data.List.Iterate
import Mathlib.Data.Rat.Floor
import Mathlib.Data.Set.Operations

/-! Ranges of integers. The distance of two signed numbers can be one bit too long for a signed number, and
the number after the last of a range can wrap around. Those that a range lists are exact all the same. -/

namespace ScriptMachine.Builtin

theorem addNumbers_eq (advance : Int64 → Int64) (count : Nat) (current : Int64) (numbers : Array Value) :
    addNumbers advance count current numbers =
      numbers ++ ((List.iterate advance current count).map Value.int).toArray := by
  induction count generalizing current numbers with
  | zero => simp [addNumbers]
  | succ count ih => simp [addNumbers, ih]

theorem rangeNumbers_eq (start stop step : Int64) :
    rangeNumbers start stop step = ((List.iterate (rangeStep start stop step) start
      (rangeCount start stop step).toNat).map Value.int).toArray := by
  rw [rangeNumbers, addNumbers_eq, Array.empty_append]

section Counting

/-- An unsigned difference does not wrap when the smaller number is taken away. -/
theorem toNat_sub_toUInt64 {low high : Int64} (ordered : low ≤ high) :
    ((high.toUInt64 - low.toUInt64).toNat : Int) = high.toInt - low.toInt := by
  have lower : low.toInt = if 2 * low.toUInt64.toNat < 2 ^ 64 then (low.toUInt64.toNat : Int)
      else low.toUInt64.toNat - 2 ^ 64 := BitVec.toInt_eq_toNat_cond low.toBitVec
  have higher : high.toInt = if 2 * high.toUInt64.toNat < 2 ^ 64 then (high.toUInt64.toNat : Int)
      else high.toUInt64.toNat - 2 ^ 64 := BitVec.toInt_eq_toNat_cond high.toBitVec
  have := low.toUInt64.toNat_lt
  have := high.toUInt64.toNat_lt
  rw [Int64.le_iff_toInt_le] at ordered
  rw [UInt64.toNat_sub]
  omega

variable {start stop step : Int64}

theorem toNat_distance (start stop : Int64) :
    ((distance start stop).toNat : Int) = |stop.toInt - start.toInt| := by
  unfold distance
  split
  next ordered =>
    rw [toNat_sub_toUInt64 ordered, abs_of_nonneg]
    exact Int.sub_nonneg.mpr (Int64.le_iff_toInt_le.mp ordered)
  next reversed =>
    have ordered : stop ≤ start := (Int64.le_total start stop).resolve_left reversed
    rw [toNat_sub_toUInt64 ordered, abs_sub_comm, abs_of_nonneg]
    exact Int.sub_nonneg.mpr (Int64.le_iff_toInt_le.mp ordered)

theorem toNat_step (positive : 0 < step) : (step.toUInt64.toNat : Int) = step.toInt := by
  have unsigned := toNat_sub_toUInt64 (Int64.le_of_lt positive)
  rwa [show Int64.toUInt64 0 = 0 from rfl, UInt64.sub_zero, Int64.toInt_zero, sub_zero] at unsigned

/-- Whole steps and one for the rest are as many as there are steps that begin before the end. -/
theorem lt_roundedUp_iff {steps width : Nat} (positive : 0 < width) (position : Nat) :
    position < (if steps % width = 0 then steps / width else steps / width + 1) ↔
      position * width < steps := by
  have whole := Nat.div_add_mod' steps width
  split
  next none =>
    rw [none, Nat.add_zero] at whole
    rw [← Nat.mul_lt_mul_right positive, whole]
  next some =>
    rw [Nat.lt_succ_iff, Nat.le_div_iff_mul_le positive]
    constructor
    · intro reached
      refine Nat.lt_of_le_of_ne reached fun equal => some ?_
      rw [← equal, Nat.mul_mod_left]
    · exact Nat.le_of_lt

/-- Something is left over only of steps longer than one, so that the count stays in range. -/
theorem toNat_rangeCount (positive : 0 < step.toUInt64.toNat) :
    (rangeCount start stop step).toNat =
      if (distance start stop).toNat % step.toUInt64.toNat = 0
      then (distance start stop).toNat / step.toUInt64.toNat
      else (distance start stop).toNat / step.toUInt64.toNat + 1 := by
  have exact : distance start stop % step.toUInt64 = 0 ↔
      (distance start stop).toNat % step.toUInt64.toNat = 0 := by
    rw [← UInt64.toNat_mod, ← UInt64.toNat_inj]
    rfl
  unfold rangeCount
  dsimp only
  split
  next whole => rw [if_pos (exact.mp whole), UInt64.toNat_div]
  next part =>
    have rest : (distance start stop).toNat % step.toUInt64.toNat ≠ 0 := fun none => part (exact.mpr none)
    have longer : 2 ≤ step.toUInt64.toNat := by
      by_contra short
      have one : step.toUInt64.toNat = 1 := by omega
      rw [one, Nat.mod_one] at rest
      exact rest rfl
    have half : (distance start stop).toNat / step.toUInt64.toNat ≤ (distance start stop).toNat / 2 :=
      Nat.div_le_div_left longer Nat.two_pos
    have bounded := (distance start stop).toNat_lt
    rw [if_neg rest, UInt64.toNat_add, UInt64.toNat_div, UInt64.toNat_one]
    exact Nat.mod_eq_of_lt (by omega)

/-- A range has one number for each step that begins before its end. -/
theorem lt_rangeCount_iff (positive : 0 < step) (position : Nat) :
    position < (rangeCount start stop step).toNat ↔
      position * step.toInt < |stop.toInt - start.toInt| := by
  have unsigned := toNat_step positive
  have above : 0 < step.toInt := Int64.lt_iff_toInt_lt.mp positive
  have width : 0 < step.toUInt64.toNat := by omega
  rw [toNat_rangeCount width, lt_roundedUp_iff width, ← toNat_distance, ← unsigned]
  exact_mod_cast Iff.rfl

theorem toNat_rangeCount_eq_ceil (positive : 0 < step) :
    (rangeCount start stop step).toNat =
      ⌈(|stop.toInt - start.toInt| : ℚ) / step.toInt⌉₊ := by
  have above : (0 : ℚ) < step.toInt := by exact_mod_cast Int64.lt_iff_toInt_lt.mp positive
  refine eq_of_forall_lt_iff fun position => ?_
  rw [lt_rangeCount_iff positive, Nat.lt_ceil, lt_div_iff₀ above]
  exact_mod_cast Iff.rfl

end Counting

section Terms

variable {start stop step : Int64}

/-- The terms of a progression in steps from one number towards another. -/
def rangeTerm (start stop step : Int) (position : Nat) : Int :=
  if start ≤ stop then start + position * step else start - position * step

/-- The numbers from one to another, which is left out. -/
def span (start stop : Int) : Set Int :=
  if start ≤ stop then { number | start ≤ number ∧ number < stop }
  else { number | stop < number ∧ number ≤ start }

/-- A term is between the ends as long as its steps do not add up to their distance. -/
theorem rangeTerm_mem_span_iff {start stop step : Int} (positive : 0 < step) (position : Nat) :
    rangeTerm start stop step position ∈ span start stop ↔ position * step < |stop - start| := by
  have forward : 0 ≤ position * step := Int.mul_nonneg (Int.natCast_nonneg _) positive.le
  unfold rangeTerm span
  split
  next ordered =>
    rw [abs_of_nonneg (Int.sub_nonneg.mpr ordered), Set.mem_ofPred_eq]
    omega
  next reversed =>
    rw [abs_of_neg (by omega), Set.mem_ofPred_eq]
    omega

theorem rangeTerm_succ (start stop step : Int) (position : Nat) :
    rangeTerm start stop step (position + 1) =
      if start ≤ stop then rangeTerm start stop step position + step
      else rangeTerm start stop step position - step := by
  unfold rangeTerm
  push_cast
  rw [Int.add_mul, Int.one_mul]
  split <;> omega

theorem signed_of_mem_span {number : Int} (inside : number ∈ span start.toInt stop.toInt) :
    -2 ^ 63 ≤ number ∧ number < 2 ^ 63 := by
  have := start.le_toInt
  have := start.toInt_lt
  have := stop.le_toInt
  have := stop.toInt_lt
  unfold span at inside
  split at inside
  · obtain ⟨above, below⟩ := inside
    omega
  · obtain ⟨above, below⟩ := inside
    omega

/-- A step to a number that is still between the ends does not wrap. -/
theorem toInt_rangeStep {current : Int64} {position : Nat}
    (here : current.toInt = rangeTerm start.toInt stop.toInt step.toInt position)
    (inside : rangeTerm start.toInt stop.toInt step.toInt (position + 1) ∈ span start.toInt stop.toInt) :
    (rangeStep start stop step current).toInt =
      rangeTerm start.toInt stop.toInt step.toInt (position + 1) := by
  obtain ⟨above, below⟩ := signed_of_mem_span inside
  rw [rangeTerm_succ, ← here] at above below ⊢
  by_cases ordered : start.toInt ≤ stop.toInt
  · rw [if_pos ordered] at above below ⊢
    rw [rangeStep, if_pos (Int64.le_iff_toInt_le.mpr ordered), Int64.toInt_add]
    exact Int.bmod_eq_of_le above below
  · rw [if_neg ordered] at above below ⊢
    rw [rangeStep, if_neg fun other => ordered (Int64.le_iff_toInt_le.mp other), Int64.toInt_sub]
    exact Int.bmod_eq_of_le above below

/-- As long as they are between the ends, the numbers stepped through are the terms. -/
theorem toInt_iterate_rangeStep (positive : 0 < step.toInt) {position : Nat}
    (inside : rangeTerm start.toInt stop.toInt step.toInt position ∈ span start.toInt stop.toInt) :
    ((rangeStep start stop step)^[position] start).toInt =
      rangeTerm start.toInt stop.toInt step.toInt position := by
  induction position with
  | zero => simp [rangeTerm]
  | succ position ih =>
    rw [Function.iterate_succ_apply']
    refine toInt_rangeStep (ih ?_) inside
    rw [rangeTerm_mem_span_iff positive] at inside ⊢
    push_cast at inside
    rw [Int.add_mul] at inside
    omega

end Terms

/-- The numbers of a range: as many as steps fit between the ends, exact terms, all of them between the
ends, and none missing at the end. -/
structure Lists (start stop step : Int64) (numbers : List Int64) : Prop where
  length : numbers.length = ⌈(|stop.toInt - start.toInt| : ℚ) / step.toInt⌉₊
  terms : ∀ position (inside : position < numbers.length),
    numbers[position].toInt = rangeTerm start.toInt stop.toInt step.toInt position
  within : ∀ number ∈ numbers, number.toInt ∈ span start.toInt stop.toInt
  complete : rangeTerm start.toInt stop.toInt step.toInt numbers.length ∉ span start.toInt stop.toInt

theorem lists_iterate {start stop step : Int64} (positive : 0 < step) :
    Lists start stop step
      (List.iterate (rangeStep start stop step) start (rangeCount start stop step).toNat) := by
  have above : 0 < step.toInt := Int64.lt_iff_toInt_lt.mp positive
  have inside (position : Nat) : position < (rangeCount start stop step).toNat ↔
      rangeTerm start.toInt stop.toInt step.toInt position ∈ span start.toInt stop.toInt :=
    (lt_rangeCount_iff positive position).trans (rangeTerm_mem_span_iff above position).symm
  have terms (position : Nat) (reached : position < (rangeCount start stop step).toNat) :=
    toInt_iterate_rangeStep above ((inside position).mp reached)
  refine ⟨?_, fun position reached => ?_, fun number member => ?_, ?_⟩
  · rw [List.length_iterate, toNat_rangeCount_eq_ceil positive]
  · rw [List.length_iterate] at reached
    rw [List.getElem_iterate, terms position reached]
  · obtain ⟨position, reached, rfl⟩ := List.mem_iterate.mp member
    rw [terms position reached]
    exact (inside position).mp reached
  · rw [List.length_iterate, ← inside]
    exact Nat.lt_irrefl _

/-- A call for a range. The step is one when it is left out. -/
structure AsksRange (context : CallContext) (start stop step : Int64) : Prop where
  plain : context.keywords = ∅
  given : context.arguments = #[.int start, .int stop, .int step] ∨
    context.arguments = #[.int start, .int stop] ∧ step = 1

section Calls

variable {start stop step : Int64}

theorem run_range {context : CallContext} (asked : AsksRange context start stop step) (store : Store) :
    run .range context store =
      if step ≤ 0 then .error .invalidRangeStep store
      else if maxArraySize < (rangeCount start stop step).toNat then .error .arrayLimit store
      else StoreM.newArray (rangeNumbers start stop step) .writable store := by
  have listed : run .range context = (do
      if step ≤ 0 then throw .invalidRangeStep
      if (rangeCount start stop step).toNat > maxArraySize then throw .arrayLimit
      StoreM.newArray (rangeNumbers start stop step) .writable) := by
    obtain ⟨arguments, keywords, receiver⟩ := context
    obtain ⟨rfl, rfl | ⟨rfl, rfl⟩⟩ := asked
    · rfl
    · rfl
  rw [listed]
  dsimp only
  by_cases early : step ≤ 0
  · rw [if_pos early, if_pos early]
    rfl
  rw [if_neg early, if_neg early]
  split
  · rfl
  · rfl

/-- A range is refused for a step that is not positive, then for more numbers than an array may have, and
otherwise it lists what it has to. -/
theorem range_is_exact {context : CallContext} (asked : AsksRange context start stop step) (store : Store) :
    (run .range context store = .error .invalidRangeStep store ↔ step ≤ 0) ∧
    (0 < step →
      (run .range context store = .error .arrayLimit store ↔
        maxArraySize < ⌈(|stop.toInt - start.toInt| : ℚ) / step.toInt⌉₊)) ∧
    (0 < step → ⌈(|stop.toInt - start.toInt| : ℚ) / step.toInt⌉₊ ≤ maxArraySize →
      ∃ numbers, Lists start stop step numbers ∧
        run .range context store = .ok (.array .writable store.cells.size)
          { store with cells := store.cells.push (.array (numbers.map Value.int).toArray) }) := by
  have answer := run_range asked store
  have forward (positive : 0 < step) : ¬step ≤ 0 := Int64.not_le.mpr positive
  refine ⟨⟨fun refused => ?_, fun backward => ?_⟩, fun positive => ⟨fun refused => ?_, fun many => ?_⟩,
    fun positive few => ?_⟩
  · by_contra positive
    rw [answer, if_neg positive] at refused
    split at refused
    · cases refused
    · cases refused
  · rw [answer, if_pos backward]
  · by_contra few
    rw [answer, if_neg (forward positive), toNat_rangeCount_eq_ceil positive, if_neg few] at refused
    cases refused
  · rw [answer, if_neg (forward positive), toNat_rangeCount_eq_ceil positive, if_pos many]
  · have fits : ¬maxArraySize < (rangeCount start stop step).toNat := by
      rw [toNat_rangeCount_eq_ceil positive]
      exact Nat.not_lt.mpr few
    refine ⟨_, lists_iterate positive, ?_⟩
    rw [answer, if_neg (forward positive), if_neg fits, rangeNumbers_eq]
    rfl

/-- A call for a range from the least number to the greatest, in the longest steps there are. -/
def farthest : CallContext where
  arguments := #[.int Int64.minValue, .int Int64.maxValue, .int Int64.maxValue]
  keywords := ∅
  receiver := none

theorem range_is_exact_farthest :
    AsksRange farthest Int64.minValue Int64.maxValue Int64.maxValue ∧
    Lists Int64.minValue Int64.maxValue Int64.maxValue [Int64.minValue, -1, Int64.maxValue - 1] ∧
    run .range farthest {} = .ok (.array .writable 0)
      { cells := #[.array #[.int Int64.minValue, .int (-1), .int (Int64.maxValue - 1)]] } := by
  have asked : AsksRange farthest Int64.minValue Int64.maxValue Int64.maxValue := ⟨rfl, .inl rfl⟩
  have count : ⌈(|Int64.maxValue.toInt - Int64.minValue.toInt| : ℚ) / Int64.maxValue.toInt⌉₊ = 3 := by
    rw [← toNat_rangeCount_eq_ceil (by decide)]
    decide
  obtain ⟨-, -, listed⟩ := range_is_exact asked {}
  obtain ⟨numbers, lists, answer⟩ := listed (by decide) (by rw [count]; decide)
  obtain ⟨first, second, third, rfl⟩ := List.length_eq_three.mp (lists.length.trans count)
  have begins : first = Int64.minValue :=
    Int64.toInt_inj.mp ((lists.terms 0 (by simp)).trans (by decide))
  have next : second = -1 := Int64.toInt_inj.mp ((lists.terms 1 (by simp)).trans (by decide))
  have ends : third = Int64.maxValue - 1 :=
    Int64.toInt_inj.mp ((lists.terms 2 (by simp)).trans (by decide))
  subst begins next ends
  exact ⟨asked, lists, answer⟩

end Calls

end ScriptMachine.Builtin
