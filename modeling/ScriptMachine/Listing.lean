import ScriptMachine.Instruction

/-! Code as readable lines: the offset, the operation's name and its operands. -/

namespace ScriptMachine.Listing

def padRight (width : Nat) (text : String) : String :=
  text ++ String.ofList (List.replicate (width - text.length) ' ')

def padLeft (fill : Char) (width n : Nat) : String :=
  let digits := toString n
  String.ofList (List.replicate (width - digits.length) fill) ++ digits

def trimEnd (text : String) : String :=
  String.ofList (text.toList.reverse.dropWhile (· == ' ')).reverse

/-- Offset and name, which every line of an operation begins with. -/
def heading (offset : Nat) (op : Opcode) : String :=
  padLeft '0' 4 offset ++ " " ++ padRight 7 op.name

/-- The operands of an instruction; an operator is shown by its symbol. -/
def operandText : Instruction → String
  | ⟨.binary, [token]⟩ =>
    match Operator.ofByte? token.toUInt8 with
    | some operator => " " ++ operator.symbol
    | none => " ?" ++ toString token
  | ⟨_, operands⟩ => operands.foldl (fun text n => text ++ " " ++ padRight 5 (toString n)) ""

def line (offset : Nat) (instruction : Instruction) : String :=
  trimEnd (heading offset instruction.op ++ operandText instruction)

def unknown (offset : Nat) (byte : UInt8) : String :=
  padLeft '0' 4 offset ++ s!" UNKNOWN({byte})"

/-- The lines of the code from an offset on, the shown offsets shifted by `shift`. A byte of no
operation takes a line, and an instruction cut short ends the listing. -/
def linesFrom (code : Array UInt8) (shift site : Nat) : List String :=
  if inside : site < code.size then
    match Opcode.ofByte? code[site] with
    | none =>
      unknown (shift + site) code[site] :: linesFrom code shift (site + 1)
    | some op =>
      match Instruction.readOperands? code (site + 1) op.widths with
      | none => [heading (shift + site) op ++ " <truncated>"]
      | some operands => line (shift + site) ⟨op, operands⟩ :: linesFrom code shift (site + op.size)
  else []
termination_by code.size - site
decreasing_by
  · omega
  · simp only [Opcode.size]; omega

def lines (code : Array UInt8) (shift : Nat) : List String := linesFrom code shift 0

end ScriptMachine.Listing
