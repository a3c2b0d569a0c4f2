import ScriptMachine.Proofs.AssembledCode
import ScriptMachine.Proofs.StackEffects

/-! Source marks of assembled code. A mark is made where the next instruction will begin, and the bytes
of instructions are never moved, so no mark ever lies between the bytes of one. -/

namespace ScriptMachine

namespace SourceMap

theorem offset_of_mem_insertMark {offset position : Nat} {marks : List (Nat × Nat)} {mark : Nat × Nat}
    (member : mark ∈ insertMark offset position marks) : mark.1 = offset ∨ mark ∈ marks := by
  induction marks with
  | nil => exact .inl (congrArg Prod.fst (List.mem_singleton.mp member))
  | cons first rest ih =>
    unfold insertMark at member
    split at member
    · obtain rfl | old := List.mem_cons.mp member
      · exact .inl rfl
      · exact .inr old
    · split at member
      · obtain rfl | old := List.mem_cons.mp member
        · exact .inl rfl
        · exact .inr (List.mem_cons_of_mem _ old)
      · obtain rfl | later := List.mem_cons.mp member
        · exact .inr List.mem_cons_self
        · exact (ih later).imp_right (List.mem_cons_of_mem _)

/-- Without a mark in between, an offset is attributed like an earlier one. -/
theorem position_of_unmarked {map : SourceMap} {site offset : Nat} (behind : site ≤ offset)
    (unmarked : ∀ mark ∈ map.marks, mark.1 ≤ site ∨ offset < mark.1) :
    map.position offset = map.position site := by
  have same : map.marks.takeWhile (·.1 ≤ offset) = map.marks.takeWhile (·.1 ≤ site) := by
    obtain ⟨marks⟩ := map
    induction marks with
    | nil => rfl
    | cons mark rest ih =>
      obtain ⟨first, others⟩ := List.forall_mem_cons.mp unmarked
      have agree : decide (mark.1 ≤ offset) = decide (mark.1 ≤ site) :=
        decide_eq_decide.mpr (by omega)
      simp only [List.takeWhile_cons, agree, ih others]
  rw [position, same]
  rfl

end SourceMap

def Opcode.isJump : Opcode → Bool
  | .jump | .jumpFalsy | .andJump | .orJump => true
  | _ => false

/-- The offsets at which the instructions of some code begin, and the offset of its end. -/
def Instruction.starts (code : Array UInt8) : List Nat :=
  ((decodeFrom? code 0).getD []).map Prod.fst ++ [code.size]

namespace Assembler

variable {asm after : Assembler} {log : List (Nat × Instruction)} {site operand : Nat}
  {instruction : Instruction}

theorem size_overwrite (code : Array UInt8) (site : Nat) (bytes : List UInt8) :
    (overwrite code site bytes).size = code.size := by
  induction bytes generalizing code site with
  | nil => rfl
  | cons byte bytes ih => rw [overwrite, ih, Array.size_setIfInBounds]

theorem kept_changeOperand (changed : asm.changeOperand site operand = .ok after) :
    after.sources = asm.sources ∧ after.code.size = asm.code.size := by
  unfold changeOperand at changed
  split at changed
  · cases changed
    exact ⟨rfl, size_overwrite ..⟩
  · cases changed

theorem Assembles.tiles (assembles : Assembles asm log) : Tiles asm.code 0 log :=
  @tiles_of_placed _ [] _ assembles.laid.bytes assembles.laid.whole assembles.laid.placed

theorem marked_emit (marked : ∀ mark ∈ asm.sources.marks, mark.1 ∈ log.map Prod.fst ++ [asm.code.size]) :
    ∀ mark ∈ (asm.emit instruction).sources.marks,
      mark.1 ∈ (log ++ [(asm.offset, instruction.filled)]).map Prod.fst ++
        [(asm.emit instruction).code.size] := by
  intro mark member
  rw [List.map_append]
  exact List.mem_append_left _ (marked mark member)

theorem Assembles.marked (assembles : Assembles asm log) :
    ∀ mark ∈ asm.sources.marks, mark.1 ∈ log.map Prod.fst ++ [asm.code.size] := by
  induction assembles with
  | empty => nofun
  | emit _ instruction _ ih => exact marked_emit ih
  | emitJump _ op ih => exact marked_emit ih
  | markSource _ position ih =>
    unfold Assembler.markSource
    split
    · exact ih
    · intro mark member
      obtain new | old := SourceMap.offset_of_mem_insertMark member
      · rw [new]
        exact List.mem_append_right _ (List.mem_singleton_self _)
      · exact ih mark old
  | changeOperand _ operand _ changed ih =>
    obtain ⟨sources, size⟩ := kept_changeOperand changed
    rw [sources, size]
    simpa only [List.map_append, List.map_cons] using ih

/-- The offsets at which instructions begin, and the one behind the last of them. -/
def startsFrom (offset : Nat) (log : List (Nat × Instruction)) : List Nat :=
  log.map Prod.fst ++ [offset + (bytesOf log).length]

section Placed

variable {offset : Nat} {rest : List (Nat × Instruction)}

theorem startsFrom_cons : startsFrom offset ((site, instruction) :: rest) =
    site :: startsFrom (offset + instruction.op.size) rest := by
  simp [startsFrom, bytesOf, Instruction.length_encode, Nat.add_assoc]

theorem startsFrom_append (first last : List (Nat × Instruction)) : startsFrom offset (first ++ last) =
    first.map Prod.fst ++ startsFrom (offset + (bytesOf first).length) last := by
  simp [startsFrom, bytesOf_append, Nat.add_assoc]

theorem Placed.first (placed : Placed offset log) : offset ∈ startsFrom offset log := by
  cases log with
  | nil => exact List.mem_singleton_self _
  | cons entry rest =>
    obtain ⟨site, instruction⟩ := entry
    obtain ⟨rfl, -⟩ := placed
    rw [startsFrom_cons]
    exact List.mem_cons_self

theorem Placed.bounds (placed : Placed offset log) :
    ∀ start ∈ startsFrom offset log, offset ≤ start ∧ start ≤ offset + (bytesOf log).length := by
  induction log generalizing offset with
  | nil =>
    intro start member
    cases List.mem_singleton.mp member
    exact ⟨Nat.le_add_right _ _, Nat.le_refl _⟩
  | cons entry rest ih =>
    obtain ⟨site, instruction⟩ := entry
    obtain ⟨rfl, others⟩ := placed
    intro start member
    rw [startsFrom_cons] at member
    have length : (bytesOf ((site, instruction) :: rest)).length =
        instruction.op.size + (bytesOf rest).length := by
      simp [bytesOf, Instruction.length_encode]
    obtain rfl | later := List.mem_cons.mp member
    · exact ⟨Nat.le_refl _, Nat.le_add_right _ _⟩
    · have inside := ih others start later
      omega

/-- What begins after an instruction begins behind its last byte, and something does. -/
theorem Placed.apart (placed : Placed offset log) (member : (site, instruction) ∈ log) :
    site + instruction.op.size ∈ startsFrom offset log ∧
      ∀ start ∈ startsFrom offset log, start ≤ site ∨ site + instruction.op.size ≤ start := by
  obtain ⟨earlier, later, rfl⟩ := List.append_of_mem member
  obtain ⟨before, same, behind⟩ := placed_append.mp placed
  rw [← same] at behind
  rw [startsFrom_append, startsFrom_cons, ← same]
  refine ⟨List.mem_append_right _ (List.mem_cons_of_mem _ behind.first), fun start among => ?_⟩
  obtain old | here := List.mem_append.mp among
  · exact .inl (same ▸ (before.bounds start (List.mem_append_left _ old)).2)
  obtain rfl | new := List.mem_cons.mp here
  · exact .inl (Nat.le_refl _)
  · exact .inr (behind.bounds start new).1

end Placed

theorem Assembles.size_eq (assembles : Assembles asm log) : 0 + (bytesOf log).length = asm.code.size := by
  rw [Nat.zero_add, ← assembles.laid.bytes, Array.length_toList]

theorem Assembles.starts_eq (assembles : Assembles asm log) :
    Instruction.starts asm.code = startsFrom 0 log := by
  rw [Instruction.starts, assembles.tiles.decoded, startsFrom, assembles.size_eq]
  rfl

theorem Assembles.mem_of_decoded (assembles : Assembles asm log) (begins : site ∈ Instruction.starts asm.code)
    (decoded : Instruction.decode? asm.code site = some instruction) : (site, instruction) ∈ log := by
  rw [assembles.starts_eq, startsFrom, assembles.size_eq] at begins
  obtain appended | ended := List.mem_append.mp begins
  · obtain ⟨⟨_, known⟩, member, rfl⟩ := List.mem_map.mp appended
    dsimp only at decoded
    rw [assembles.laid.decoded member] at decoded
    cases decoded
    exact member
  · obtain rfl := List.mem_singleton.mp ended
    have found := (Instruction.decode?_eq_some decoded).1
    rw [Array.getElem?_eq_none (Nat.le_refl _)] at found
    cases found

end Assembler

/-- Code as an assembler makes it, whose jumps go to where instructions begin, or to the end. -/
inductive FunctionCode.Assembled (code : FunctionCode) : Prop where
  | intro {asm : Assembler} {log : List (Nat × Instruction)} (assembles : Assembler.Assembles asm log)
      (instructions : asm.code = code.instructions) (sources : asm.sources = code.sources)
      (jumps : ∀ entry ∈ log, entry.2.op.isJump = true →
        entry.2.operand 0 ∈ Assembler.startsFrom 0 log)

namespace FunctionCode.Assembled

variable {code : FunctionCode} {site : Nat} {instruction : Instruction}

theorem begins (assembled : code.Assembled) : 0 ∈ Instruction.starts code.instructions := by
  obtain ⟨assembles, instructions, -, -⟩ := assembled
  rw [← instructions, assembles.starts_eq]
  exact assembles.laid.placed.first

theorem target (assembled : code.Assembled) (begins : site ∈ Instruction.starts code.instructions)
    (decoded : Instruction.decode? code.instructions site = some instruction)
    (jumps : instruction.op.isJump = true) :
    instruction.operand 0 ∈ Instruction.starts code.instructions := by
  obtain ⟨assembles, instructions, -, targets⟩ := assembled
  rw [← instructions] at begins decoded
  rw [← instructions, assembles.starts_eq]
  exact targets _ (assembles.mem_of_decoded begins decoded) jumps

/-- Behind an instruction another one begins, and no mark lies between its bytes. -/
theorem apart (assembled : code.Assembled) (begins : site ∈ Instruction.starts code.instructions)
    (decoded : Instruction.decode? code.instructions site = some instruction) :
    site + instruction.op.size ∈ Instruction.starts code.instructions ∧
      ∀ mark ∈ code.sources.marks, mark.1 ≤ site ∨ site + instruction.op.size ≤ mark.1 := by
  obtain ⟨assembles, instructions, sources, -⟩ := assembled
  rw [← instructions] at begins decoded
  obtain ⟨next, others⟩ := assembles.laid.placed.apart (assembles.mem_of_decoded begins decoded)
  rw [← instructions, ← sources, assembles.starts_eq]
  refine ⟨next, fun mark member => others _ ?_⟩
  rw [Assembler.startsFrom, assembles.size_eq]
  exact assembles.marked mark member

end FunctionCode.Assembled

end ScriptMachine
