import ScriptMachine.Instruction
import ScriptMachine.Fault

/-! Building the code of one function: instructions are appended, forward jumps are patched once
their target is known, and source positions are recorded as the code grows. -/

namespace ScriptMachine

/-- Code under construction. -/
structure Assembler where
  code : Array UInt8 := #[]
  sources : SourceMap := {}

namespace Assembler

def offset (asm : Assembler) : Nat := asm.code.size

def emit (asm : Assembler) (instruction : Instruction) : Assembler :=
  { asm with code := asm.code ++ instruction.encode }

/-- Appends a jump whose target is still open. -/
def emitJump (asm : Assembler) (op : Opcode) : Assembler :=
  asm.emit ⟨op, [0]⟩

def overwrite (code : Array UInt8) (site : Nat) : List UInt8 → Array UInt8
  | [] => code
  | byte :: rest => overwrite (code.setIfInBounds site byte) (site + 1) rest

/-- Replaces the first operand of the instruction at an offset. It is cut down to its width, and the other
operands stay as they were. -/
def changeOperand (asm : Assembler) (site operand : Nat) : Except Fault Assembler :=
  match Instruction.decode? asm.code site with
  | some ⟨op, _ :: operands⟩ =>
    .ok { asm with code := overwrite asm.code site (Instruction.encode ⟨op, operand :: operands⟩) }
  | _ => .error (.invalidInstruction site)

/-- Points the jump at an offset to the next instruction. -/
def patchJump (asm : Assembler) (site : Nat) : Except Fault Assembler :=
  asm.changeOperand site asm.offset

/-- Attributes what follows to a source position; position zero attributes nothing. -/
def markSource (asm : Assembler) (position : Nat) : Assembler :=
  if position = 0 then asm else { asm with sources := asm.sources.insert asm.offset position }

end Assembler

def assemble (instructions : List Instruction) : Array UInt8 :=
  (instructions.foldl Assembler.emit {}).code

end ScriptMachine
