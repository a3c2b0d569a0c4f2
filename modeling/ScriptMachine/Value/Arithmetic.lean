import ScriptMachine.Value.Display
import ScriptMachine.Opcode
import ScriptMachine.Limits

/-! Operators on values. Integers wrap at 64 bits, a float operand makes the operation a float one,
characters move by integers, and text, bytes and arrays are joined by `+`. -/

namespace ScriptMachine

namespace Operator

/-- What a comparison operator says of an ordering; no other operator says anything. -/
def holds? (op : Operator) (order : Ordering) : Option Bool :=
  match op with
  | less => some (order == .lt)
  | greater => some (order == .gt)
  | lessEq => some (order != .gt)
  | greaterEq => some (order != .lt)
  | _ => none

def compared (op : Operator) (order : Ordering) : Option Value :=
  (op.holds? order).map .bool

/-- Shifts to the left; a count outside 0 to 63 shifts every bit out. -/
def shiftedLeft (left right : Int64) : Int64 :=
  if 0 ≤ right && right < 64 then left <<< right else 0

/-- Shifts to the right, keeping the sign; a count outside 0 to 63 leaves only the sign. -/
def shiftedRight (left right : Int64) : Int64 :=
  if 0 ≤ right && right < 64 then left >>> right else if left < 0 then -1 else 0

def orderInts (left right : Int) : Ordering :=
  if left < right then .lt else if left = right then .eq else .gt

/-- The order of two texts, by code points. -/
def orderTexts (left right : String) : Ordering :=
  if left < right then .lt else if left = right then .eq else .gt

/-- Operators on integers. Every operator has a result, except for a division by zero. The least number
divided by -1 wraps around to itself. -/
def onInts (op : Operator) (left right : Int64) : Except Fault (Option Value) :=
  match op with
  | add => .ok (some (.int (left + right)))
  | sub => .ok (some (.int (left - right)))
  | mul => .ok (some (.int (left * right)))
  | quo => if right = 0 then .error .divisionByZero else .ok (some (.int (left / right)))
  | rem => if right = 0 then .error .divisionByZero else .ok (some (.int (left % right)))
  | and => .ok (some (.int (left &&& right)))
  | or => .ok (some (.int (left ||| right)))
  | xor => .ok (some (.int (left ^^^ right)))
  | andNot => .ok (some (.int (left &&& ~~~right)))
  | shiftLeft => .ok (some (.int (shiftedLeft left right)))
  | shiftRight => .ok (some (.int (shiftedRight left right)))
  | comparison => .ok (comparison.compared (orderInts left.toInt right.toInt))

/-- Operators on floats: the four operations of arithmetic and the comparisons. -/
def onFloats (op : Operator) (left right : Float) : Option Value :=
  match op with
  | add => some (.float (left + right))
  | sub => some (.float (left - right))
  | mul => some (.float (left * right))
  | quo => some (.float (left / right))
  | less => some (.bool (left < right))
  | greater => some (.bool (left > right))
  | lessEq => some (.bool (left ≤ right))
  | greaterEq => some (.bool (left ≥ right))
  | _ => none

def charAt? (code : Int) : Option Value :=
  if 0 ≤ code ∧ code.toNat.isValidChar then some (.char (Char.ofNat code.toNat)) else none

/-- Operators on code points: `+` and `-` give a character, comparisons their answer. -/
def onCodePoints (op : Operator) (left right : Int) : Option Value :=
  match op with
  | add => charAt? (left + right)
  | sub => charAt? (left - right)
  | comparison => comparison.compared (orderInts left right)

def join (left right : String) : Except Fault (Option Value) :=
  if left.utf8ByteSize + right.utf8ByteSize > maxStringSize then .error .stringLimit
  else .ok (some (.string (left ++ right)))

end Operator

namespace Value

def codePoint (c : Char) : Int := c.toNat

/-- The result of an operator that needs no new cell, if the operands have one. -/
def operate (store : Store) (op : Operator) : Value → Value → Except Fault (Option Value)
  | int l, int r => op.onInts l r
  | int l, float r => .ok (op.onFloats l.toFloat r)
  | int l, char r => .ok (op.onCodePoints l.toInt (codePoint r))
  | float l, float r => .ok (op.onFloats l r)
  | float l, int r => .ok (op.onFloats l r.toFloat)
  | char l, char r => .ok (op.onCodePoints (codePoint l) (codePoint r))
  | char l, int r => .ok (op.onCodePoints (codePoint l) r.toInt)
  | string l, string r =>
    if op = .add then Operator.join l r else .ok (op.compared (Operator.orderTexts l r))
  | string l, other =>
    if op = .add then Operator.join l ((store.keyText? other).getD "") else .ok none
  | bytes l, bytes r =>
    if op = .add then
      if l.size + r.size > maxBytesSize then .error .bytesLimit else .ok (some (.bytes (l ++ r)))
    else .ok none
  | _, _ => .ok none

/-- The result of a binary operator. Joined arrays are a new array. -/
def binary (op : Operator) (left right : Value) : StoreM Value := do
  let store ← get
  match left, right, op with
  | array _ l, array _ r, .add => StoreM.newArray (store.elements l ++ store.elements r) .writable
  | _, _, _ =>
    match left.operate store op right with
    | .ok (some result) => return result
    | .ok none => throw (.invalidOperation (left.kind store) op.symbol (right.kind store))
    | .error fault => throw fault

def negative (store : Store) : Value → Except Fault Value
  | int i => .ok (.int (-i))
  | float x => .ok (.float (-x))
  | other => .error (.invalidUnaryOperation "-" (other.kind store))

def complement (store : Store) : Value → Except Fault Value
  | int i => .ok (.int (~~~i))
  | other => .error (.invalidUnaryOperation "^" (other.kind store))

end Value

end ScriptMachine
