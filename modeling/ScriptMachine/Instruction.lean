import ScriptMachine.Opcode

/-! Instructions as bytes. Operands are big-endian; a missing one is zero and one too large for its
width loses its high bits. -/

namespace ScriptMachine

structure Instruction where
  op : Opcode
  operands : List Nat
  deriving DecidableEq

namespace Instruction

def encodeOperand (width operand : Nat) : List UInt8 :=
  match width with
  | 1 => [operand.toUInt8]
  | _ => [(operand / 256).toUInt8, operand.toUInt8]

def encodeOperands : List Nat → List Nat → List UInt8
  | [], _ => []
  | width :: widths, [] => encodeOperand width 0 ++ encodeOperands widths []
  | width :: widths, operand :: operands =>
    encodeOperand width operand ++ encodeOperands widths operands

def encode (instruction : Instruction) : List UInt8 :=
  instruction.op.byte :: encodeOperands instruction.op.widths instruction.operands

def readByte? (code : Array UInt8) (offset : Nat) : Option Nat :=
  code[offset]?.map (·.toNat)

/-- The big-endian number in the two bytes at an offset. -/
def readPair? (code : Array UInt8) (offset : Nat) : Option Nat := do
  let high ← code[offset]?
  let low ← code[offset + 1]?
  return high.toNat * 256 + low.toNat

/-- One operand of the given width at an offset; only widths one and two exist. -/
def readOperand? (code : Array UInt8) (offset width : Nat) : Option Nat :=
  match width with
  | 1 => readByte? code offset
  | 2 => readPair? code offset
  | _ => none

/-- Operands of the given widths from an offset on; none when the code ends before they do. -/
def readOperands? (code : Array UInt8) (offset : Nat) : List Nat → Option (List Nat)
  | [] => some []
  | width :: widths => do
    let operand ← readOperand? code offset width
    let rest ← readOperands? code (offset + width) widths
    return operand :: rest

/-- The instruction at an offset, if a whole one stands there. -/
def decode? (code : Array UInt8) (offset : Nat) : Option Instruction := do
  let op ← Opcode.ofByte? (← code[offset]?)
  let operands ← readOperands? code (offset + 1) op.widths
  return ⟨op, operands⟩

end Instruction

end ScriptMachine
