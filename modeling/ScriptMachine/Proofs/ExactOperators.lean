import ScriptMachine.Value.Arithmetic
import Mathlib.Data.Int.Bitwise
import Mathlib.Data.Int.ModEq
import Mathlib.Data.Rat.Floor

/-! Operators on integers and characters. What an operator gives for two integers is the exact result, taken
modulo `2 ^ 64` into the range of signed numbers, whatever the operands are. A character is never wrapped
around: where the exact code point is none, the operator is refused. -/

namespace ScriptMachine

theorem StoreM.run_get_bind {α : Type} (rest : Store → StoreM α) (store : Store) :
    (get >>= rest) store = rest store store := rfl

namespace Operator

section Words

/-- The bits of a signed number, that of the sign repeated without end. -/
theorem testBit_toInt (number : Int64) (position : Nat) :
    number.toInt.testBit position = number.toBitVec.getLsbD (min position 63) := by
  have sign : number.toBitVec.msb = number.toBitVec.getLsbD 63 := BitVec.msb_eq_getLsbD_last _
  have below := number.toBitVec.isLt
  rw [← Int64.toInt_toBitVec, BitVec.toInt_eq_msb_cond]
  cases negative : number.toBitVec.msb with
  | false =>
    rw [if_neg Bool.false_ne_true]
    change number.toBitVec.getLsbD position = _
    by_cases inside : position < 64
    · rw [Nat.min_eq_left (by omega)]
    · rw [Nat.min_eq_right (by omega), ← sign, negative, BitVec.getLsbD_of_ge _ _ (by omega)]
  | true =>
    have flipped : (number.toBitVec.toNat : Int) - ((2 ^ 64 : Nat) : Int) =
        .negSucc (~~~number.toBitVec).toNat := by
      rw [BitVec.toNat_not, Int.negSucc_eq]
      omega
    rw [if_pos rfl, flipped]
    change (!(~~~number.toBitVec).getLsbD position) = _
    rw [BitVec.getLsbD_not]
    by_cases inside : position < 64
    · rw [Nat.min_eq_left (by omega), decide_eq_true inside, Bool.true_and, Bool.not_not]
    · rw [Nat.min_eq_right (by omega), ← sign, negative, decide_eq_false inside, Bool.false_and,
        Bool.not_false]

variable (left right : Int64)

theorem inWord_iff : (0 ≤ right && right < 64) = true ↔ right.toUInt64.toNat < 64 := by
  have signed : right.toInt = if 2 * right.toUInt64.toNat < 2 ^ 64 then (right.toUInt64.toNat : Int)
      else right.toUInt64.toNat - 2 ^ 64 := BitVec.toInt_eq_toNat_cond right.toBitVec
  have := right.toUInt64.toNat_lt
  rw [Bool.and_eq_true, decide_eq_true_eq, decide_eq_true_eq, Int64.le_iff_toInt_le, Int64.lt_iff_toInt_lt,
    show (64 : Int64).toInt = 64 from rfl, Int64.toInt_zero]
  omega

variable {right} in
theorem toNat_smod (inWord : right.toUInt64.toNat < 64) :
    (right.toBitVec.smod 64).toNat = right.toUInt64.toNat := by
  have positive : right.toBitVec.msb = false := by
    rw [BitVec.msb_eq_false_iff_two_mul_lt, Int64.toNat_toBitVec]
    omega
  rw [BitVec.toNat_smod, positive]
  exact Nat.mod_eq_of_lt inWord

theorem toInt_shiftedLeft :
    (shiftedLeft left right).toInt = (left.toInt * 2 ^ right.toUInt64.toNat).bmod (2 ^ 64) := by
  unfold shiftedLeft
  by_cases inWord : right.toUInt64.toNat < 64
  · rw [if_pos ((inWord_iff right).mpr inWord), ← Int64.toInt_toBitVec, Int64.toBitVec_shiftLeft,
      BitVec.shiftLeft_eq', toNat_smod inWord, BitVec.toInt_shiftLeft, ← Int64.toInt_toBitVec,
      BitVec.toInt_eq_toNat_bmod, Int.bmod_mul_bmod, Nat.shiftLeft_eq]
    push_cast
    rfl
  · obtain ⟨more, count⟩ := Nat.exists_eq_add_of_le (Nat.le_of_not_lt inWord)
    have whole : ((2 ^ 64 : Nat) : Int) ∣ left.toInt * 2 ^ right.toUInt64.toNat := by
      rw [count, Int.pow_add]
      exact Dvd.dvd.mul_left (Dvd.intro _ rfl) _
    rw [if_neg fun other => inWord ((inWord_iff right).mp other), Int64.toInt_zero,
      Int.bmod_eq_zero_of_dvd whole]

theorem toInt_shiftedRight :
    (shiftedRight left right).toInt = left.toInt / 2 ^ right.toUInt64.toNat := by
  unfold shiftedRight
  by_cases inWord : right.toUInt64.toNat < 64
  · rw [if_pos ((inWord_iff right).mpr inWord), ← Int64.toInt_toBitVec, Int64.toBitVec_shiftRight,
      BitVec.sshiftRight_eq', toNat_smod inWord, BitVec.toInt_sshiftRight, Int.shiftRight_eq_div_pow]
    push_cast
    rfl
  · rw [if_neg fun other => inWord ((inWord_iff right).mp other)]
    have long : (2 : Int) ^ 64 ≤ 2 ^ right.toUInt64.toNat :=
      pow_le_pow_right₀ (by decide) (Nat.le_of_not_lt inWord)
    have := left.le_toInt
    have := left.toInt_lt
    split
    next negative =>
      rw [Int64.lt_iff_toInt_lt, Int64.toInt_zero] at negative
      rw [Int.ediv_eq_neg_one_of_neg_of_le negative (by omega)]
      rfl
    next positive =>
      rw [Int64.lt_iff_toInt_lt, Int64.toInt_zero] at positive
      rw [Int.ediv_eq_zero_of_lt (by omega) (by omega), Int64.toInt_zero]

theorem abs_tmod_lt {divisor : Int} (number : Int) (some : divisor ≠ 0) :
    |number.tmod divisor| < |divisor| := by
  rw [Int.abs_eq_natAbs, Int.abs_eq_natAbs, Int.natAbs_tmod]
  exact_mod_cast Nat.mod_lt _ (Int.natAbs_pos.mpr some)

end Words

section Answers

variable {op : Operator} {left right result : Value} {store : Store}

/-- An operator whose left operand is no array gives what it gives without new cells. -/
theorem binary_of_some (plain : ∀ handle ref, left ≠ .array handle ref)
    (computed : left.operate store op right = .ok (some result)) :
    Value.binary op left right store = .ok result store := by
  rw [Value.binary, StoreM.run_get_bind]
  split
  next => exact absurd rfl (plain _ _)
  next => rw [computed]; rfl

theorem binary_of_none (plain : ∀ handle ref, left ≠ .array handle ref)
    (computed : left.operate store op right = .ok none) :
    Value.binary op left right store =
      .error (.invalidOperation (left.kind store) op.symbol (right.kind store)) store := by
  rw [Value.binary, StoreM.run_get_bind]
  split
  next => exact absurd rfl (plain _ _)
  next => rw [computed]; rfl

end Answers

/-- The operator gives a number for two numbers, and one that has a property. -/
def Gives (op : Operator) (left right : Int64) (store : Store) (holds : Int → Prop) : Prop :=
  ∃ result : Int64, Value.binary op (.int left) (.int right) store = .ok (.int result) store ∧
    holds result.toInt

/-- The comparisons of two values answer with the order of two exact numbers. -/
structure Compares (left right : Value) (first second : Int) (store : Store) : Prop where
  less : Value.binary .less left right store = .ok (.bool (first < second)) store
  greater : Value.binary .greater left right store = .ok (.bool (second < first)) store
  lessEq : Value.binary .lessEq left right store = .ok (.bool (first ≤ second)) store
  greaterEq : Value.binary .greaterEq left right store = .ok (.bool (second ≤ first)) store

/-- What the operators give for two integers. -/
structure ExactOnInts (left right : Int64) (store : Store) : Prop where
  add : Gives .add left right store (· = (left.toInt + right.toInt).bmod (2 ^ 64))
  sub : Gives .sub left right store (· = (left.toInt - right.toInt).bmod (2 ^ 64))
  mul : Gives .mul left right store (· = (left.toInt * right.toInt).bmod (2 ^ 64))
  byZero : right = 0 →
    Value.binary .quo (.int left) (.int right) store = .error .divisionByZero store ∧
    Value.binary .rem (.int left) (.int right) store = .error .divisionByZero store
  divides : right ≠ 0 → ∃ quotient remainder : Int64,
    Value.binary .quo (.int left) (.int right) store = .ok (.int quotient) store ∧
    Value.binary .rem (.int left) (.int right) store = .ok (.int remainder) store ∧
    quotient.toInt = (left.toInt.tdiv right.toInt).bmod (2 ^ 64) ∧
    remainder.toInt = (left.toInt.tmod right.toInt).bmod (2 ^ 64) ∧
    quotient.toInt * right.toInt + remainder.toInt ≡ left.toInt [ZMOD 2 ^ 64] ∧
    |remainder.toInt| < |right.toInt|
  shiftLeft : Gives .shiftLeft left right store
    (· = (left.toInt * 2 ^ right.toUInt64.toNat).bmod (2 ^ 64))
  shiftRight : Gives .shiftRight left right store (· = ⌊(left.toInt : ℚ) / 2 ^ right.toUInt64.toNat⌋)
  and : Gives .and left right store fun number => ∀ position,
    number.testBit position = (left.toInt.testBit position && right.toInt.testBit position)
  or : Gives .or left right store fun number => ∀ position,
    number.testBit position = (left.toInt.testBit position || right.toInt.testBit position)
  xor : Gives .xor left right store fun number => ∀ position,
    number.testBit position = (left.toInt.testBit position ^^ right.toInt.testBit position)
  andNot : Gives .andNot left right store fun number => ∀ position,
    number.testBit position = (left.toInt.testBit position && !right.toInt.testBit position)
  compares : Compares (.int left) (.int right) left.toInt right.toInt store
  refused : ∀ op fault after, Value.binary op (.int left) (.int right) store = .error fault after →
    fault = .divisionByZero ∧ right = 0 ∧ (op = .quo ∨ op = .rem)

/-- A code point that is a character: not one of those set aside for pairs of them. -/
def IsScalar (code : Int) : Prop := 0 ≤ code ∧ code < 0xd800 ∨ 0xdfff < code ∧ code < 0x110000

/-- The operator gives the character with a code point, and is refused if that is none. -/
structure MovesTo (op : Operator) (left right : Value) (code : Int) (store : Store) : Prop where
  reached : IsScalar code →
    ∃ char : Char, Value.binary op left right store = .ok (.char char) store ∧ (char.toNat : Int) = code
  refused : ¬IsScalar code → Value.binary op left right store =
    .error (.invalidOperation (left.kind store) op.symbol (right.kind store)) store

/-- What the operators give for two numbers at least one of which is the code point of a character. -/
structure ExactOnCodes (left right : Value) (first second : Int) (store : Store) : Prop where
  add : MovesTo .add left right (first + second) store
  sub : MovesTo .sub left right (first - second) store
  compares : Compares left right first second store

section Comparisons

variable {first second : Int}

theorem orderInts_lt : (orderInts first second == .lt) = decide (first < second) := by
  unfold orderInts
  split
  next less => rw [decide_eq_true less]; rfl
  next other => split <;> rw [decide_eq_false other] <;> rfl

theorem orderInts_gt : (orderInts first second == .gt) = decide (second < first) := by
  unfold orderInts
  split
  next less => rw [decide_eq_false (by omega)]; rfl
  next other =>
    split
    next same => rw [decide_eq_false (by omega)]; rfl
    next different => rw [decide_eq_true (by omega)]; rfl

theorem compares_of_ordered {left right : Value} {store : Store}
    (ordered : ∀ op answer, op.compared (orderInts first second) = some answer →
      Value.binary op left right store = .ok answer store) :
    Compares left right first second store where
  less := ordered .less _ (by rw [← orderInts_lt]; rfl)
  greater := ordered .greater _ (by rw [← orderInts_gt]; rfl)
  lessEq := ordered .lessEq _ (by
    rw [decide_eq_decide.mpr Int.not_lt.symm, decide_not, ← orderInts_gt]
    rfl)
  greaterEq := ordered .greaterEq _ (by
    rw [decide_eq_decide.mpr Int.not_lt.symm, decide_not, ← orderInts_lt]
    rfl)

end Comparisons

section Integers

variable (left right : Int64) (store : Store)

theorem divides :
    (left / right).toInt * right.toInt + (left % right).toInt ≡ left.toInt [ZMOD 2 ^ 64] := by
  have quotient : (left / right).toInt ≡ left.toInt.tdiv right.toInt [ZMOD 2 ^ 64] := by
    rw [Int64.toInt_div]
    exact Int.bmod_emod
  rw [Int64.toInt_mod]
  calc (left / right).toInt * right.toInt + left.toInt.tmod right.toInt
      ≡ left.toInt.tdiv right.toInt * right.toInt + left.toInt.tmod right.toInt [ZMOD 2 ^ 64] :=
        (quotient.mul_right _).add_right _
    _ = left.toInt := Int.tdiv_mul_add_tmod _ _

variable {left right store} in
theorem quo_of_ne_zero (some : right ≠ 0) :
    Value.binary .quo (.int left) (.int right) store = .ok (.int (left / right)) store :=
  binary_of_some nofun (if_neg some)

variable {left right store} in
theorem rem_of_ne_zero (some : right ≠ 0) :
    Value.binary .rem (.int left) (.int right) store = .ok (.int (left % right)) store :=
  binary_of_some nofun (if_neg some)

/-- Dividing the least number by minus one wraps around; a remainder never does. -/
theorem exactOnInts : ExactOnInts left right store where
  add := ⟨left + right, rfl, Int64.toInt_add left right⟩
  sub := ⟨left - right, rfl, Int64.toInt_sub left right⟩
  mul := ⟨left * right, rfl, Int64.toInt_mul left right⟩
  byZero zero := by
    subst zero
    exact ⟨rfl, rfl⟩
  divides some := by
    have remainder := Int64.toInt_mod left right
    have nonzero : right.toInt ≠ 0 := fun zero => some (Int64.toInt_inj.mp zero)
    refine ⟨left / right, left % right, quo_of_ne_zero some, rem_of_ne_zero some,
      Int64.toInt_div left right, ?_, divides left right, ?_⟩
    · rw [← remainder]
      exact (Int64.toInt_bmod_size _).symm
    · rw [remainder]
      exact abs_tmod_lt _ nonzero
  shiftLeft := ⟨shiftedLeft left right, rfl, toInt_shiftedLeft left right⟩
  shiftRight := by
    refine ⟨shiftedRight left right, rfl, ?_⟩
    have floor := Rat.floor_intCast_div_natCast left.toInt (2 ^ right.toUInt64.toNat)
    push_cast at floor
    rw [floor, toInt_shiftedRight]
  and := by
    refine ⟨left &&& right, rfl, fun position => ?_⟩
    simp only [testBit_toInt, Int64.toBitVec_and, BitVec.getLsbD_and]
  or := by
    refine ⟨left ||| right, rfl, fun position => ?_⟩
    simp only [testBit_toInt, Int64.toBitVec_or, BitVec.getLsbD_or]
  xor := by
    refine ⟨left ^^^ right, rfl, fun position => ?_⟩
    simp only [testBit_toInt, Int64.toBitVec_xor, BitVec.getLsbD_xor]
  andNot := by
    refine ⟨left &&& ~~~right, rfl, fun position => ?_⟩
    have inside : min position 63 < 64 := by omega
    simp only [testBit_toInt, Int64.toBitVec_and, BitVec.getLsbD_and, Int64.toBitVec_not, BitVec.getLsbD_not,
      inside, decide_true, Bool.true_and]
  compares := compares_of_ordered fun op answer ordered => by
    cases op <;> cases ordered <;> rfl
  refused op fault after refused := by
    cases op with
    | quo =>
      by_cases zero : right = 0
      · subst zero
        cases refused
        exact ⟨rfl, rfl, .inl rfl⟩
      · cases (quo_of_ne_zero zero).symm.trans refused
    | rem =>
      by_cases zero : right = 0
      · subst zero
        cases refused
        exact ⟨rfl, rfl, .inr rfl⟩
      · cases (rem_of_ne_zero zero).symm.trans refused
    | _ => cases refused

end Integers

section Characters

variable {left right : Value} {first second code : Int} {store : Store}

theorem charAt?_of_scalar (scalar : IsScalar code) :
    ∃ char : Char, charAt? code = some (.char char) ∧ (char.toNat : Int) = code := by
  have valid : code.toNat.isValidChar := by
    rw [Nat.isValidChar]
    rw [IsScalar] at scalar
    omega
  have positive : 0 ≤ code := by
    rw [IsScalar] at scalar
    omega
  have same : (Char.ofNat code.toNat).toNat = code.toNat := by
    rw [Char.ofNat, dif_pos valid]
    rfl
  refine ⟨Char.ofNat code.toNat, if_pos ⟨positive, valid⟩, ?_⟩
  rw [same, Int.toNat_of_nonneg positive]

theorem charAt?_of_not_scalar (other : ¬IsScalar code) : charAt? code = none := by
  refine if_neg fun scalar => other ?_
  rw [Nat.isValidChar] at scalar
  rw [IsScalar]
  omega

theorem movesTo_of_operates {op : Operator} (plain : ∀ handle ref, left ≠ .array handle ref)
    (operates : left.operate store op right = .ok (charAt? code)) : MovesTo op left right code store where
  reached scalar := by
    obtain ⟨char, found, is⟩ := charAt?_of_scalar scalar
    exact ⟨char, binary_of_some plain (operates.trans (congrArg Except.ok found)), is⟩
  refused other :=
    binary_of_none plain (operates.trans (congrArg Except.ok (charAt?_of_not_scalar other)))

theorem exactOnCodes (plain : ∀ handle ref, left ≠ .array handle ref)
    (operates : ∀ op, left.operate store op right = .ok (op.onCodePoints first second)) :
    ExactOnCodes left right first second store where
  add := movesTo_of_operates plain (operates .add)
  sub := movesTo_of_operates plain (operates .sub)
  compares := compares_of_ordered fun op answer ordered => by
    refine binary_of_some plain ((operates op).trans (congrArg Except.ok ?_))
    cases op <;> cases ordered <;> rfl

end Characters

/-- Operators on integers and code points are exact. -/
theorem operators_are_exact (store : Store) :
    (∀ left right : Int64, ExactOnInts left right store) ∧
    (∀ (left : Char) (right : Int64),
      ExactOnCodes (.char left) (.int right) left.toNat right.toInt store) ∧
    (∀ (left : Int64) (right : Char),
      ExactOnCodes (.int left) (.char right) left.toInt right.toNat store) ∧
    ∀ left right : Char, ExactOnCodes (.char left) (.char right) left.toNat right.toNat store :=
  ⟨fun left right => exactOnInts left right store, fun _ _ => exactOnCodes nofun fun _ => rfl,
    fun _ _ => exactOnCodes nofun fun _ => rfl, fun _ _ => exactOnCodes nofun fun _ => rfl⟩

end Operator

end ScriptMachine
