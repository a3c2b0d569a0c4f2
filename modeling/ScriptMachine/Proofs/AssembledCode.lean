import Mathlib.Algebra.Group.Nat.Defs
import Mathlib.Data.List.TakeWhile
import ScriptMachine.Listing
import ScriptMachine.Proofs.DecodedInstructions

/-! Code as it is assembled. Instructions are appended, and their first operands are changed in place.
The bytes always read back as the instructions that were appended, each at the offset where it was put,
and a listing of the code shows them. -/

namespace ScriptMachine

theorem Opcode.widths_small (op : Opcode) {width : Nat} (member : width ∈ op.widths) :
    width = 1 ∨ width = 2 := by
  revert width
  cases op with
  | _ => decide

namespace Instruction

/-- One operand for each width. Missing ones are zero, and what is left over is dropped. -/
def fillOperands : List Nat → List Nat → List Nat
  | [], _ => []
  | _ :: widths, [] => 0 :: fillOperands widths []
  | _ :: widths, operand :: operands => operand :: fillOperands widths operands

def filled (instruction : Instruction) : Instruction :=
  ⟨instruction.op, fillOperands instruction.op.widths instruction.operands⟩

def InRange (instruction : Instruction) : Prop :=
  ∀ pair ∈ instruction.op.widths.zip instruction.operands, pair.2 < 256 ^ pair.1

instance (instruction : Instruction) : Decidable instruction.InRange := List.decidableBAll _ _

def withFirst (instruction : Instruction) (operand : Nat) : Instruction :=
  match instruction with
  | ⟨op, _ :: operands⟩ => ⟨op, operand :: operands⟩
  | ⟨op, []⟩ => ⟨op, []⟩

/-- Operands that are there for all widths, each small enough for its own. -/
abbrev Fit (widths operands : List Nat) : Prop :=
  List.Forall₂ (fun width operand => operand < 256 ^ width) widths operands

/-- An instruction that its bytes say everything about. -/
def Whole (instruction : Instruction) : Prop := Fit instruction.op.widths instruction.operands

/-- The instructions of some code from an offset on, each with its own offset. All of the code has to
belong to instructions. -/
def decodeFrom? (code : Array UInt8) (offset : Nat) : Option (List (Nat × Instruction)) :=
  if offset < code.size then do
    let instruction ← decode? code offset
    let rest ← decodeFrom? code (offset + instruction.op.size)
    return (offset, instruction) :: rest
  else if offset = code.size then some [] else none
termination_by code.size - offset
decreasing_by simp only [Opcode.size]; omega

section Encoding

variable {code : Array UInt8} {before after : List UInt8} {widths operands : List Nat}
  {instruction : Instruction}

theorem fit_fillOperands (inRange : ∀ pair ∈ widths.zip operands, pair.2 < 256 ^ pair.1) :
    Fit widths (fillOperands widths operands) := by
  induction widths generalizing operands with
  | nil => exact .nil
  | cons width widths ih =>
    cases operands with
    | nil => exact .cons (Nat.pow_pos (by decide)) (ih (by simp))
    | cons operand operands =>
      obtain ⟨first, others⟩ := List.forall_mem_cons.mp inRange
      exact .cons first (ih others)

theorem encodeOperands_fillOperands (widths operands : List Nat) :
    encodeOperands widths (fillOperands widths operands) = encodeOperands widths operands := by
  induction widths generalizing operands with
  | nil => rfl
  | cons width widths ih =>
    cases operands with
    | nil => simp only [fillOperands, encodeOperands, ih]
    | cons operand operands => simp only [fillOperands, encodeOperands, ih]

theorem encode_filled (instruction : Instruction) : instruction.filled.encode = instruction.encode :=
  congrArg (_ :: ·) (encodeOperands_fillOperands _ _)

theorem InRange.filled (inRange : instruction.InRange) : instruction.filled.Whole :=
  fit_fillOperands inRange

theorem length_encodeOperand {width operand : Nat} (small : width = 1 ∨ width = 2) :
    (encodeOperand width operand).length = width := by
  obtain rfl | rfl := small
  · rfl
  · rfl

theorem length_encodeOperands (small : ∀ width ∈ widths, width = 1 ∨ width = 2)
    (operands : List Nat) : (encodeOperands widths operands).length = Opcode.totalWidth widths := by
  induction widths generalizing operands with
  | nil => rfl
  | cons width widths ih =>
    obtain ⟨first, others⟩ := List.forall_mem_cons.mp small
    cases operands with
    | nil =>
      rw [encodeOperands, List.length_append, length_encodeOperand first, ih others]
      rfl
    | cons operand operands =>
      rw [encodeOperands, List.length_append, length_encodeOperand first, ih others]
      rfl

theorem length_encode (instruction : Instruction) :
    instruction.encode.length = instruction.op.size := by
  rw [encode, List.length_cons, length_encodeOperands fun _ => instruction.op.widths_small,
    Opcode.size, Nat.add_comm]

theorem getElem?_behind {byte : UInt8} (same : code.toList = before ++ byte :: after) :
    code[before.length]? = some byte := by
  rw [← Array.getElem?_toList, same, List.getElem?_append_right (Nat.le_refl _), Nat.sub_self]
  rfl

theorem readOperand?_encoded {width operand : Nat} (small : width = 1 ∨ width = 2)
    (fits : operand < 256 ^ width)
    (same : code.toList = before ++ encodeOperand width operand ++ after) :
    readOperand? code before.length width = some operand := by
  rw [List.append_assoc] at same
  obtain rfl | rfl := small
  · have found : code[before.length]? = some operand.toUInt8 := getElem?_behind same
    simp only [readOperand?, readByte?, found, Option.map_some, Option.some.injEq]
    exact Nat.mod_eq_of_lt fits
  · have high : code[before.length]? = some (operand / 256).toUInt8 := getElem?_behind same
    have low : code[before.length + 1]? = some operand.toUInt8 := by
      have shifted : code.toList =
          (before ++ [(operand / 256).toUInt8]) ++ operand.toUInt8 :: after := by
        rw [same, List.append_assoc]
        rfl
      simpa using getElem?_behind shifted
    simp only [readOperand?, readPair?, high, low, Option.bind_eq_bind, Option.bind_some]
    refine congrArg some ?_
    have first : (operand / 256).toUInt8.toNat = operand / 256 :=
      Nat.mod_eq_of_lt (Nat.div_lt_of_lt_mul fits)
    have second : operand.toUInt8.toNat = operand % 256 := rfl
    rw [first, second, Nat.div_add_mod']

theorem readOperands?_encoded (fit : Fit widths operands)
    (small : ∀ width ∈ widths, width = 1 ∨ width = 2)
    (same : code.toList = before ++ encodeOperands widths operands ++ after) :
    readOperands? code before.length widths = some operands := by
  induction fit generalizing before with
  | nil => rfl
  | @cons width operand widths operands fits _ ih =>
    obtain ⟨first, others⟩ := List.forall_mem_cons.mp small
    have split : code.toList =
        before ++ encodeOperand width operand ++ (encodeOperands widths operands ++ after) := by
      rw [same, encodeOperands]
      simp only [List.append_assoc]
    have rest := @ih (before ++ encodeOperand width operand) others
      (by rw [split]; simp only [List.append_assoc])
    rw [List.length_append, length_encodeOperand first] at rest
    simp only [readOperands?, readOperand?_encoded first fits split, rest, Option.bind_eq_bind,
      Option.bind_some]
    rfl

theorem Whole.operands_read (whole : instruction.Whole)
    (same : code.toList = before ++ instruction.encode ++ after) :
    readOperands? code (before.length + 1) instruction.op.widths = some instruction.operands := by
  have shifted : code.toList = (before ++ [instruction.op.byte]) ++
      encodeOperands instruction.op.widths instruction.operands ++ after := by
    rw [same, encode]
    simp only [List.append_assoc, List.cons_append, List.nil_append]
  simpa using readOperands?_encoded whole (fun _ => instruction.op.widths_small) shifted

theorem operation_found (same : code.toList = before ++ instruction.encode ++ after) :
    code[before.length]? = some instruction.op.byte :=
  getElem?_behind (same.trans (List.append_assoc ..))

theorem Whole.decoded (whole : instruction.Whole)
    (same : code.toList = before ++ instruction.encode ++ after) :
    decode? code before.length = some instruction := by
  rw [Act.decode?_eq (operation_found same), whole.operands_read same]
  rfl

end Encoding

end Instruction

namespace Listing

def wordsOf (characters : List Char) : List String :=
  ((characters.splitOnP (· == ' ')).filter (!·.isEmpty)).map String.ofList

def words (line : String) : List String := wordsOf line.toList

/-- What a listing shows of operands: an operator's symbol, or numbers. -/
def operandWords : Instruction → List String
  | ⟨.binary, [token]⟩ =>
    match Operator.ofByte? token.toUInt8 with
    | some operator => [operator.symbol]
    | none => ["?" ++ toString token]
  | ⟨_, operands⟩ => operands.map toString

/-- A text that is one word. -/
def Unbroken (text : String) : Prop := text.toList ≠ [] ∧ ∀ character ∈ text.toList, character ≠ ' '

instance (text : String) : Decidable (Unbroken text) :=
  @instDecidableAnd _ _ inferInstance (List.decidableBAll _ _)

section Words

variable {characters : List Char} {text : String}

theorem wordsOf_append_blank (characters rest : List Char) :
    wordsOf (characters ++ ' ' :: rest) = wordsOf characters ++ wordsOf rest := by
  rw [wordsOf, List.splitOnP_append_cons _ _ rfl, List.filter_append, List.map_append]
  rfl

theorem Unbroken.words (unbroken : Unbroken text) : wordsOf text.toList = [text] := by
  obtain ⟨filled, dense⟩ := unbroken
  have single : text.toList.splitOnP (· == ' ') = [text.toList] :=
    List.splitOnP_eq_singleton fun character member => by simpa using dense character member
  rw [wordsOf, single, List.filter_cons_of_pos (by simpa using filled)]
  simp

theorem wordsOf_append_blanks (characters : List Char) (count : Nat) :
    wordsOf (characters ++ List.replicate count ' ') = wordsOf characters := by
  induction count with
  | zero => rw [List.replicate_zero, List.append_nil]
  | succ count ih =>
    rw [List.replicate_succ', ← List.append_assoc, wordsOf_append_blank, ih]
    exact List.append_nil _

theorem words_trimEnd (text : String) : words (trimEnd text) = words text := by
  have split : text.toList = (text.toList.reverse.dropWhile (· == ' ')).reverse ++
      List.replicate (text.toList.reverse.takeWhile (· == ' ')).length ' ' := by
    have blanks : text.toList.reverse.takeWhile (· == ' ') =
        List.replicate (text.toList.reverse.takeWhile (· == ' ')).length ' ' :=
      List.eq_replicate_of_mem fun character member => by
        simpa using List.mem_takeWhile_imp member
    have whole := congrArg List.reverse
      (List.takeWhile_append_dropWhile (p := (· == ' ')) (l := text.toList.reverse))
    rw [List.reverse_append, List.reverse_reverse] at whole
    rw [← List.reverse_replicate, ← blanks, whole]
  rw [words, words, trimEnd, String.toList_ofList]
  conv_rhs => rw [split, wordsOf_append_blanks]

theorem wordsOf_append_padded (characters : List Char) (width : Nat) (unbroken : Unbroken text) :
    wordsOf (characters ++ ' ' :: (padRight width text).toList) = wordsOf characters ++ [text] := by
  rw [wordsOf_append_blank, padRight, String.toList_append, String.toList_ofList,
    wordsOf_append_blanks, unbroken.words]

theorem digit_ne_blank {number : Nat} {character : Char} (digit : character ∈ (toString number).toList) :
    character ≠ ' ' := by
  rintro rfl
  rw [Nat.toString_eq_repr, Nat.repr, String.toList_ofList] at digit
  exact absurd (Nat.isDigit_of_mem_toDigits (by decide) (by decide) digit) (by decide)

theorem unbroken_toString (number : Nat) : Unbroken (toString number) := by
  refine ⟨?_, fun _ => digit_ne_blank⟩
  rw [Nat.toString_eq_repr, Nat.repr, String.toList_ofList]
  exact Nat.toDigits_ne_nil

theorem unbroken_padLeft (width number : Nat) : Unbroken (padLeft '0' width number) := by
  rw [Unbroken, padLeft, String.toList_append, String.toList_ofList]
  refine ⟨List.append_ne_nil_of_right_ne_nil _ (unbroken_toString number).1, fun character member => ?_⟩
  obtain filler | digit := List.mem_append.mp member
  · rw [List.eq_of_mem_replicate filler]
    decide
  · exact digit_ne_blank digit

theorem unbroken_name (op : Opcode) : Unbroken op.name := by
  cases op with
  | _ => decide

theorem unbroken_symbol (operator : Operator) : Unbroken operator.symbol := by
  cases operator with
  | _ => decide

theorem toList_blank_append (before after : String) :
    (before ++ " " ++ after).toList = before.toList ++ ' ' :: after.toList := by
  simp

theorem wordsOf_numbers (characters : List Char) (text : String) (operands : List Nat) :
    wordsOf (characters ++
        (operands.foldl (fun text n => text ++ " " ++ padRight 5 (toString n)) text).toList) =
      wordsOf (characters ++ text.toList) ++ operands.map toString := by
  induction operands generalizing text with
  | nil => exact (List.append_nil _).symm
  | cons operand operands ih =>
    rw [List.foldl_cons, ih, toList_blank_append, ← List.append_assoc,
      wordsOf_append_padded _ _ (unbroken_toString operand), List.append_assoc]
    rfl

theorem wordsOf_operator (characters : List Char) (token : Nat) :
    wordsOf (characters ++ (operandText ⟨.binary, [token]⟩).toList) =
      wordsOf characters ++ operandWords ⟨.binary, [token]⟩ := by
  have shown (word : String) (unbroken : Unbroken word) :
      wordsOf (characters ++ ' ' :: word.toList) = wordsOf characters ++ [word] :=
    (wordsOf_append_blank ..).trans (congrArg _ unbroken.words)
  simp only [operandText, operandWords]
  cases Operator.ofByte? token.toUInt8 with
  | some operator =>
    have apart : (" " ++ operator.symbol).toList = ' ' :: operator.symbol.toList := by simp
    exact (congrArg (wordsOf <| characters ++ ·) apart).trans (shown _ (unbroken_symbol operator))
  | none =>
    have apart : (" ?" ++ toString token).toList = ' ' :: ("?" ++ toString token).toList := by simp
    have unbroken : Unbroken ("?" ++ toString token) := by
      rw [Unbroken, String.toList_append]
      refine ⟨List.append_ne_nil_of_right_ne_nil _ (unbroken_toString token).1, fun _ member => ?_⟩
      obtain mark | digit := List.mem_append.mp member
      · simp_all
      · exact digit_ne_blank digit
    exact (congrArg (wordsOf <| characters ++ ·) apart).trans (shown _ unbroken)

theorem wordsOf_operandText (characters : List Char) (instruction : Instruction) :
    wordsOf (characters ++ (operandText instruction).toList) =
      wordsOf characters ++ operandWords instruction := by
  by_cases operator : ∃ token, instruction = ⟨.binary, [token]⟩
  · obtain ⟨token, rfl⟩ := operator
    exact wordsOf_operator characters token
  · obtain ⟨op, operands⟩ := instruction
    have plain (token : Nat) (binary : op = .binary) : operands ≠ [token] := fun single =>
      operator ⟨token, by rw [binary, single]⟩
    have shown := wordsOf_numbers characters "" operands
    rw [operandText, operandWords]
    · simpa using shown
    all_goals exact plain

/-- The line of an instruction shows where it is, what it is called and its operands. -/
theorem words_line (offset : Nat) (instruction : Instruction) : words (line offset instruction) =
    padLeft '0' 4 offset :: instruction.op.name :: operandWords instruction := by
  have heads : wordsOf (heading offset instruction.op).toList =
      [padLeft '0' 4 offset, instruction.op.name] := by
    rw [heading, toList_blank_append, wordsOf_append_padded _ _ (unbroken_name _),
      (unbroken_padLeft 4 offset).words]
    rfl
  rw [line, words_trimEnd, words, String.toList_append, wordsOf_operandText, heads]
  rfl

end Words

end Listing
namespace Assembler

/-- Code and the instructions that went into it, each with the offset where it was put. First operands
are changed at such offsets only, and all operands are in range. -/
inductive Assembles : Assembler → List (Nat × Instruction) → Prop where
  | empty : Assembles {} []
  | emit {asm : Assembler} {log : List (Nat × Instruction)} (assembles : Assembles asm log)
      (instruction : Instruction) (inRange : instruction.InRange) :
      Assembles (asm.emit instruction) (log ++ [(asm.offset, instruction.filled)])
  | emitJump {asm : Assembler} {log : List (Nat × Instruction)} (assembles : Assembles asm log)
      (op : Opcode) : Assembles (asm.emitJump op) (log ++ [(asm.offset, Instruction.filled ⟨op, [0]⟩)])
  | markSource {asm : Assembler} {log : List (Nat × Instruction)} (assembles : Assembles asm log)
      (position : Nat) : Assembles (asm.markSource position) log
  | changeOperand {asm after : Assembler} {earlier later : List (Nat × Instruction)} {site : Nat}
      {instruction : Instruction} (assembles : Assembles asm (earlier ++ (site, instruction) :: later))
      (operand : Nat) (inRange : ∀ width ∈ instruction.op.widths.head?, operand < 256 ^ width)
      (changed : asm.changeOperand site operand = .ok after) :
      Assembles after (earlier ++ (site, instruction.withFirst operand) :: later)

def bytesOf (log : List (Nat × Instruction)) : List UInt8 := log.flatMap fun entry => entry.2.encode

/-- The offsets of instructions that follow each other without a gap. -/
def Placed : Nat → List (Nat × Instruction) → Prop
  | _, [] => True
  | offset, (site, instruction) :: rest => site = offset ∧ Placed (offset + instruction.op.size) rest

/-- Code that consists of whole instructions at their offsets. -/
structure Laid (asm : Assembler) (log : List (Nat × Instruction)) : Prop where
  bytes : asm.code.toList = bytesOf log
  whole : ∀ entry ∈ log, entry.2.Whole
  placed : Placed 0 log

theorem placed_append {offset : Nat} {first last : List (Nat × Instruction)} :
    Placed offset (first ++ last) ↔
      Placed offset first ∧ Placed (offset + (bytesOf first).length) last := by
  induction first generalizing offset with
  | nil => simp [Placed, bytesOf]
  | cons entry rest ih =>
    obtain ⟨site, instruction⟩ := entry
    simp only [List.cons_append, Placed, ih, bytesOf, List.flatMap_cons, List.length_append,
      Instruction.length_encode, Nat.add_assoc, and_assoc]

theorem bytesOf_append (first last : List (Nat × Instruction)) :
    bytesOf (first ++ last) = bytesOf first ++ bytesOf last := List.flatMap_append

theorem toList_overwrite {code : Array UInt8} {before old after bytes : List UInt8}
    (same : code.toList = before ++ old ++ after) (length : bytes.length = old.length) :
    (overwrite code before.length bytes).toList = before ++ bytes ++ after := by
  induction bytes generalizing code before old with
  | nil =>
    cases List.eq_nil_of_length_eq_zero length.symm
    exact same
  | cons byte bytes ih =>
    obtain ⟨replaced, old, rfl⟩ := List.exists_cons_of_length_eq_add_one length.symm
    have written : (code.setIfInBounds before.length byte).toList = (before ++ [byte]) ++ old ++ after := by
      rw [Array.toList_setIfInBounds, same]
      simp
    have rest := ih written (Nat.succ.inj length)
    rw [List.length_append, List.length_singleton] at rest
    rw [overwrite, rest]
    simp only [List.append_assoc, List.cons_append, List.nil_append]

section Laid

variable {asm after : Assembler} {log earlier later : List (Nat × Instruction)} {site operand : Nat}
  {instruction : Instruction}

theorem Laid.append {other : Instruction} (laid : Laid asm log) (whole : other.Whole)
    (same : other.encode = instruction.encode) :
    Laid (asm.emit instruction) (log ++ [(asm.offset, other)]) := by
  have bytes := laid.bytes
  refine ⟨?_, ?_, ?_⟩
  · rw [bytesOf_append, ← bytes, Assembler.emit, Array.toList_appendList]
    simp [bytesOf, same]
  · simpa [or_imp, forall_and, whole] using laid.whole
  · rw [placed_append, ← bytes]
    exact ⟨laid.placed, by simp [offset], trivial⟩

theorem Laid.around (laid : Laid asm (earlier ++ (site, instruction) :: later)) :
    site = (bytesOf earlier).length ∧ instruction.Whole ∧
      asm.code.toList = bytesOf earlier ++ instruction.encode ++ bytesOf later := by
  have placed := (placed_append.mp laid.placed).2
  refine ⟨by simpa using placed.1, laid.whole _ (List.mem_append_right _ List.mem_cons_self), ?_⟩
  rw [laid.bytes, bytesOf_append, List.append_assoc]
  rfl

theorem Laid.change_bare (laid : Laid asm (earlier ++ (site, instruction) :: later))
    (bare : instruction.op.widths = []) (operand : Nat) :
    asm.changeOperand site operand = .error (.invalidInstruction site) := by
  obtain ⟨rfl, whole, same⟩ := laid.around
  have none : instruction.operands = [] := by
    have fit : Instruction.Fit instruction.op.widths instruction.operands := whole
    rw [bare] at fit
    exact List.forall₂_nil_left_iff.mp fit
  obtain ⟨op, operands⟩ := instruction
  cases none
  simp only [Assembler.changeOperand, whole.decoded same]

theorem Laid.change (laid : Laid asm (earlier ++ (site, instruction) :: later))
    (takes : instruction.op.widths ≠ []) (operand : Nat) :
    ∃ code, asm.changeOperand site operand = .ok { asm with code } ∧
      code.toList = bytesOf earlier ++ (instruction.withFirst operand).encode ++ bytesOf later := by
  obtain ⟨rfl, whole, same⟩ := laid.around
  have decoded := whole.decoded same
  obtain ⟨op, operands⟩ := instruction
  cases operands with
  | nil => exact absurd (List.forall₂_nil_right_iff.mp whole) takes
  | cons first operands =>
    refine ⟨_, by simp only [Assembler.changeOperand, decoded]; rfl, toList_overwrite same ?_⟩
    rw [Instruction.length_encode, Instruction.length_encode]
    rfl

theorem op_withFirst (instruction : Instruction) (operand : Nat) :
    (instruction.withFirst operand).op = instruction.op := by
  obtain ⟨op, operands⟩ := instruction
  cases operands <;> rfl

theorem whole_withFirst (whole : instruction.Whole)
    (inRange : ∀ width ∈ instruction.op.widths.head?, operand < 256 ^ width) :
    (instruction.withFirst operand).Whole := by
  obtain ⟨op, operands⟩ := instruction
  cases operands with
  | nil => exact whole
  | cons first operands =>
    have fit : Instruction.Fit op.widths (first :: operands) := whole
    obtain ⟨width, widths, -, others, same⟩ := List.forall₂_cons_right_iff.mp fit
    have widths : op.widths.head? = some width := by rw [same]; rfl
    rw [Instruction.Whole, Instruction.withFirst, same]
    exact .cons (inRange width widths) others

theorem Laid.replace {other : Instruction} (laid : Laid asm (earlier ++ (site, instruction) :: later))
    (whole : other.Whole) (op : other.op = instruction.op)
    (same : other.encode = (instruction.withFirst operand).encode)
    (changed : asm.changeOperand site operand = .ok after) :
    Laid after (earlier ++ (site, other) :: later) := by
  have takes : instruction.op.widths ≠ [] := fun bare => by
    cases changed.symm.trans (laid.change_bare bare operand)
  obtain ⟨code, done, bytes⟩ := laid.change takes operand
  cases changed.symm.trans done
  have placed := placed_append.mp laid.placed
  refine ⟨?_, ?_, ?_⟩
  · rw [bytes, ← same, bytesOf_append, List.append_assoc]
    rfl
  · have others := laid.whole
    simp only [List.forall_mem_append, List.forall_mem_cons] at others ⊢
    exact ⟨others.1, whole, others.2.2⟩
  · refine placed_append.mpr ⟨placed.1, placed.2.1, ?_⟩
    rw [op]
    exact placed.2.2

theorem Laid.decoded (laid : Laid asm log) (member : (site, instruction) ∈ log) :
    Instruction.decode? asm.code site = some instruction := by
  obtain ⟨earlier, later, rfl⟩ := List.append_of_mem member
  obtain ⟨rfl, whole, same⟩ := laid.around
  exact whole.decoded same

theorem Assembles.laid (assembles : Assembles asm log) : Laid asm log := by
  induction assembles with
  | empty => exact ⟨rfl, nofun, trivial⟩
  | emit _ instruction inRange ih => exact ih.append inRange.filled (Instruction.encode_filled _)
  | emitJump _ op ih =>
    have inRange : Instruction.InRange ⟨op, [0]⟩ := by
      intro pair member
      rw [List.eq_of_mem_singleton (List.of_mem_zip member).2]
      exact Nat.pow_pos (by decide)
    exact ih.append inRange.filled (Instruction.encode_filled _)
  | markSource _ position ih =>
    unfold Assembler.markSource
    split
    · exact ih
    · exact ⟨ih.bytes, ih.whole, ih.placed⟩
  | changeOperand _ operand inRange changed ih =>
    exact ih.replace (whole_withFirst ih.around.2.1 inRange) (op_withFirst _ _) rfl changed

end Laid

section Reading

variable {code : Array UInt8} {offset : Nat} {before : List UInt8} {log : List (Nat × Instruction)}

/-- Instructions that stand in the code from an offset on, up to its end. -/
def Tiles (code : Array UInt8) : Nat → List (Nat × Instruction) → Prop
  | offset, [] => offset = code.size
  | offset, (site, instruction) :: rest => site = offset ∧ code[offset]? = some instruction.op.byte ∧
      Instruction.readOperands? code (offset + 1) instruction.op.widths = some instruction.operands ∧
      Tiles code (offset + instruction.op.size) rest

theorem tiles_of_placed (same : code.toList = before ++ bytesOf log)
    (whole : ∀ entry ∈ log, entry.2.Whole) (placed : Placed before.length log) :
    Tiles code before.length log := by
  induction log generalizing before with
  | nil => rw [Tiles, ← Array.length_toList, same, bytesOf, List.flatMap_nil, List.append_nil]
  | cons entry rest ih =>
    obtain ⟨site, instruction⟩ := entry
    obtain ⟨first, others⟩ := List.forall_mem_cons.mp whole
    have bytes : code.toList = before ++ instruction.encode ++ bytesOf rest := by
      rw [same, List.append_assoc]
      rfl
    have behind : (before ++ instruction.encode).length = before.length + instruction.op.size := by
      rw [List.length_append, Instruction.length_encode]
    refine ⟨placed.1, Instruction.operation_found bytes, first.operands_read bytes, ?_⟩
    have follow := placed.2
    rw [← behind] at follow ⊢
    exact ih bytes others follow

theorem inside_of_tiles {entry : Nat × Instruction} (tiles : Tiles code offset (entry :: log)) :
    offset < code.size := by
  obtain ⟨inside, -⟩ := Array.getElem?_eq_some_iff.mp tiles.2.1
  exact inside

theorem Tiles.decoded (tiles : Tiles code offset log) :
    Instruction.decodeFrom? code offset = some log := by
  induction log generalizing offset with
  | nil =>
    obtain rfl : offset = code.size := tiles
    rw [Instruction.decodeFrom?, if_neg (Nat.lt_irrefl _), if_pos rfl]
  | cons entry rest ih =>
    have inside := inside_of_tiles tiles
    obtain ⟨site, instruction⟩ := entry
    obtain ⟨rfl, found, read, others⟩ := tiles
    rw [Instruction.decodeFrom?, if_pos inside, Act.decode?_eq found, read]
    simp only [Option.map_some, Option.bind_eq_bind, Option.bind_some, ih others]
    rfl

theorem Tiles.listed (tiles : Tiles code offset log) (shift : Nat) :
    Listing.linesFrom code shift offset =
      log.map fun entry => Listing.line (shift + entry.1) entry.2 := by
  induction log generalizing offset with
  | nil =>
    obtain rfl : offset = code.size := tiles
    rw [Listing.linesFrom, dif_neg (Nat.lt_irrefl _)]
    rfl
  | cons entry rest ih =>
    have inside := inside_of_tiles tiles
    obtain ⟨site, instruction⟩ := entry
    obtain ⟨rfl, found, read, others⟩ := tiles
    have byte : Opcode.ofByte? code[site] = some instruction.op := by
      rw [Array.getElem_eq_iff.mpr found, Opcode.ofByte?_byte]
    rw [Listing.linesFrom, dif_pos inside]
    simp only [byte, read, ih others]
    rfl

end Reading

/-- Assembled code reads back, from its first byte to its last, as the instructions that were
appended, each at the offset where it was put, with all operands that its operation has and the first
operand it was last given. A first operand can be changed unless the instruction has none. A listing
shows one line for each instruction, with its offset, its name and its operands. -/
theorem assembled_code_reads_back {asm : Assembler} {log : List (Nat × Instruction)}
    (assembles : Assembles asm log) :
    Instruction.decodeFrom? asm.code 0 = some log ∧
    (∀ site instruction, (site, instruction) ∈ log → ∀ operand,
      (instruction.op.widths = [] →
        asm.changeOperand site operand = .error (.invalidInstruction site)) ∧
      (instruction.op.widths ≠ [] → ∃ after, asm.changeOperand site operand = .ok after)) ∧
    ∀ shift,
      Listing.lines asm.code shift = log.map (fun entry => Listing.line (shift + entry.1) entry.2) ∧
      ∀ entry ∈ log, Listing.words (Listing.line (shift + entry.1) entry.2) =
        Listing.padLeft '0' 4 (shift + entry.1) :: entry.2.op.name :: Listing.operandWords entry.2 := by
  have laid := assembles.laid
  have tiles : Tiles asm.code 0 log := @tiles_of_placed _ [] _ laid.bytes laid.whole laid.placed
  refine ⟨tiles.decoded, fun site instruction member operand => ?_, fun shift =>
    ⟨tiles.listed shift, fun entry _ => Listing.words_line _ _⟩⟩
  obtain ⟨earlier, later, rfl⟩ := List.append_of_mem member
  refine ⟨fun bare => laid.change_bare bare operand, fun takes => ?_⟩
  obtain ⟨code, done, -⟩ := laid.change takes operand
  exact ⟨_, done⟩

/-- A jump over an assignment that is told its target once that is known. -/
def skipping : Assembler :=
  let ahead := ((({} : Assembler).markSource 3).emitJump .jumpFalsy).emit ⟨.setGlobalPath, [300]⟩
  ((ahead.changeOperand 0 ahead.offset).toOption.getD {}).emit ⟨.pop, []⟩

/-- It reads back with its target and the operand that was left out. The last instruction has no
operand that could be changed. -/
theorem assembled_code_reads_back_skipping :
    Assembles skipping [(0, ⟨.jumpFalsy, [7]⟩), (3, ⟨.setGlobalPath, [300, 0]⟩), (7, ⟨.pop, []⟩)] ∧
    Instruction.decodeFrom? skipping.code 0 =
      some [(0, ⟨.jumpFalsy, [7]⟩), (3, ⟨.setGlobalPath, [300, 0]⟩), (7, ⟨.pop, []⟩)] ∧
    skipping.changeOperand 7 1 = .error (.invalidInstruction 7) ∧
    Listing.lines skipping.code 0 = ["0000 JMPF    7", "0003 SETSG   300   0", "0007 POP"] := by
  have ahead := ((Assembles.empty.markSource 3).emitJump .jumpFalsy).emit ⟨.setGlobalPath, [300]⟩
    (by decide)
  have patched := @Assembles.changeOperand _ _ [] _ _ _ ahead 7 (by decide) rfl
  have assembles : Assembles skipping
      [(0, ⟨.jumpFalsy, [7]⟩), (3, ⟨.setGlobalPath, [300, 0]⟩), (7, ⟨.pop, []⟩)] :=
    patched.emit ⟨.pop, []⟩ (by decide)
  obtain ⟨decoded, changes, listed⟩ := assembled_code_reads_back assembles
  exact ⟨assembles, decoded, (changes 7 ⟨.pop, []⟩ (by decide) 1).1 rfl, (listed 0).1.trans (by decide +kernel)⟩

end Assembler

end ScriptMachine
