import ScriptMachine.Proofs.CodeOffsets
import ScriptMachine.Proofs.SourceMarks

/-! Jumps that are told their target after the code behind them is known. A target takes two bytes and
loses its high bits without a complaint, so a jump in long code may go somewhere else. -/

namespace ScriptMachine

namespace Instruction

/-- One operand for each width, without the high bits that have no room. Missing ones are zero. -/
def clip : List Nat → List Nat → List Nat
  | [], _ => []
  | _ :: widths, [] => 0 :: clip widths []
  | width :: widths, operand :: operands => operand % 256 ^ width :: clip widths operands

/-- The instruction as its bytes say it. -/
def written (instruction : Instruction) : Instruction :=
  ⟨instruction.op, clip instruction.op.widths instruction.operands⟩

theorem fit_clip (widths operands : List Nat) : Fit widths (clip widths operands) := by
  induction widths generalizing operands with
  | nil => exact .nil
  | cons width widths ih =>
    have room : 0 < 256 ^ width := Nat.pow_pos (by decide)
    cases operands with
    | nil => exact .cons room (ih [])
    | cons operand operands => exact .cons (Nat.mod_lt _ room) (ih operands)

theorem toUInt8_eq_of_mod {first second : Nat} (same : first % 256 = second % 256) :
    first.toUInt8 = second.toUInt8 := UInt8.toNat_inj.mp same

theorem encodeOperand_mod {width : Nat} (small : width = 1 ∨ width = 2) (operand : Nat) :
    encodeOperand width (operand % 256 ^ width) = encodeOperand width operand := by
  obtain rfl | rfl := small
  · have low : (operand % 256 ^ 1).toUInt8 = operand.toUInt8 := toUInt8_eq_of_mod (by omega)
    simp only [encodeOperand, low]
  · have high : (operand % 256 ^ 2 / 256).toUInt8 = (operand / 256).toUInt8 :=
      toUInt8_eq_of_mod (by omega)
    have low : (operand % 256 ^ 2).toUInt8 = operand.toUInt8 := toUInt8_eq_of_mod (by omega)
    simp only [encodeOperand, high, low]

theorem encodeOperands_clip {widths : List Nat} (small : ∀ width ∈ widths, width = 1 ∨ width = 2)
    (operands : List Nat) : encodeOperands widths (clip widths operands) = encodeOperands widths operands := by
  induction widths generalizing operands with
  | nil => rfl
  | cons width widths ih =>
    obtain ⟨first, others⟩ := List.forall_mem_cons.mp small
    cases operands with
    | nil => simp only [clip, encodeOperands, ih others]
    | cons operand operands => simp only [clip, encodeOperands, encodeOperand_mod first, ih others]

theorem encode_written (instruction : Instruction) : instruction.written.encode = instruction.encode :=
  congrArg (_ :: ·) (encodeOperands_clip (fun _ => instruction.op.widths_small) _)

theorem whole_written (instruction : Instruction) : instruction.written.Whole := fit_clip _ _

theorem clip_eq {widths operands : List Nat} (fit : Fit widths operands) : clip widths operands = operands := by
  induction fit with
  | nil => rfl
  | cons fits _ ih => rw [clip, ih, Nat.mod_eq_of_lt fits]

/-- Another first operand keeps of it what its width has room for. -/
theorem Whole.written_withFirst {instruction : Instruction} {width : Nat} {widths : List Nat}
    (whole : instruction.Whole) (takes : instruction.op.widths = width :: widths) (operand : Nat) :
    (instruction.withFirst operand).written =
      ⟨instruction.op, operand % 256 ^ width :: instruction.operands.tail⟩ := by
  obtain ⟨op, operands⟩ := instruction
  have takes : op.widths = width :: widths := takes
  have fit : Fit op.widths operands := whole
  rw [takes] at fit
  cases fit with
  | cons _ others => simp only [withFirst, written, takes, clip, clip_eq others, List.tail_cons]

section Decoding

variable {code : Array UInt8} {offset width operand : Nat} {widths operands : List Nat}
  {instruction : Instruction}

theorem drop_of_found {byte : UInt8} (found : code[offset]? = some byte) :
    code.toList.drop offset = byte :: code.toList.drop (offset + 1) := by
  obtain ⟨inside, rfl⟩ := Array.getElem?_eq_some_iff.mp found
  exact List.drop_eq_getElem_cons inside

theorem drop_of_readOperand? (small : width = 1 ∨ width = 2)
    (read : readOperand? code offset width = some operand) : operand < 256 ^ width ∧
      code.toList.drop offset = encodeOperand width operand ++ code.toList.drop (offset + width) := by
  obtain rfl | rfl := small
  · obtain ⟨byte, found, rfl⟩ := Option.map_eq_some_iff.mp read
    refine ⟨byte.toNat_lt, ?_⟩
    have same : byte.toNat.toUInt8 = byte := UInt8.ofNat_toNat
    rw [drop_of_found found, encodeOperand, same]
    rfl
  · simp only [readOperand?, readPair?, Option.bind_eq_bind, Option.bind_eq_some_iff, Option.pure_def,
      Option.some.injEq] at read
    obtain ⟨high, first, low, second, rfl⟩ := read
    have bounds := And.intro high.toNat_lt low.toNat_lt
    refine ⟨by omega, ?_⟩
    have upper : ((high.toNat * 256 + low.toNat) / 256).toUInt8 = high := by
      apply UInt8.toNat_inj.mp
      show (high.toNat * 256 + low.toNat) / 256 % 256 = high.toNat
      omega
    have lower : (high.toNat * 256 + low.toNat).toUInt8 = low := by
      apply UInt8.toNat_inj.mp
      show (high.toNat * 256 + low.toNat) % 256 = low.toNat
      omega
    rw [drop_of_found first, drop_of_found second, encodeOperand, upper, lower]
    · rfl
    · rintro ⟨⟩

theorem drop_of_readOperands? (small : ∀ width ∈ widths, width = 1 ∨ width = 2)
    (read : readOperands? code offset widths = some operands) : Fit widths operands ∧
      code.toList.drop offset =
        encodeOperands widths operands ++ code.toList.drop (offset + Opcode.totalWidth widths) := by
  induction widths generalizing offset operands with
  | nil =>
    cases read
    exact ⟨.nil, rfl⟩
  | cons width widths ih =>
    obtain ⟨first, others⟩ := List.forall_mem_cons.mp small
    obtain ⟨operand, rest, rfl, one, more⟩ := Act.readOperands?_cons read
    obtain ⟨fits, here⟩ := drop_of_readOperand? first one
    obtain ⟨fit, there⟩ := ih others more
    refine ⟨.cons fits fit, ?_⟩
    rw [here, there, encodeOperands, Opcode.totalWidth, List.append_assoc, Nat.add_assoc]

/-- Where an instruction is read, its bytes stand. -/
theorem split_of_decoded (decoded : decode? code offset = some instruction) :
    instruction.Whole ∧ ∃ before after, before.length = offset ∧
      code.toList = before ++ instruction.encode ++ after := by
  obtain ⟨found, read⟩ := decode?_eq_some decoded
  obtain ⟨fit, operands⟩ := drop_of_readOperands? (fun _ => instruction.op.widths_small) read
  have inside : offset ≤ code.toList.length :=
    Nat.le_of_lt (Array.getElem?_eq_some_iff.mp found).1
  refine ⟨fit, code.toList.take offset,
    code.toList.drop (offset + 1 + Opcode.totalWidth instruction.op.widths),
    List.length_take_of_le inside, ?_⟩
  rw [encode, List.append_assoc, List.cons_append, ← operands, ← drop_of_found found,
    List.take_append_drop]

end Decoding

end Instruction

namespace Assembler

variable {asm after : Assembler} {log earlier later : List (Nat × Instruction)} {site operand : Nat}
  {instruction : Instruction}

/-- Code and the instructions that its bytes say, each with the offset where it was put. Operands of
any size were given, when an instruction was appended or when its first operand was changed. -/
inductive Drafts : Assembler → List (Nat × Instruction) → Prop where
  | empty : Drafts {} []
  | emit {asm : Assembler} {log : List (Nat × Instruction)} (drafts : Drafts asm log)
      (instruction : Instruction) :
      Drafts (asm.emit instruction) (log ++ [(asm.offset, instruction.written)])
  | emitJump {asm : Assembler} {log : List (Nat × Instruction)} (drafts : Drafts asm log)
      (op : Opcode) : Drafts (asm.emitJump op) (log ++ [(asm.offset, Instruction.written ⟨op, [0]⟩)])
  | markSource {asm : Assembler} {log : List (Nat × Instruction)} (drafts : Drafts asm log)
      (position : Nat) : Drafts (asm.markSource position) log
  | changeOperand {asm after : Assembler} {earlier later : List (Nat × Instruction)} {site : Nat}
      {instruction : Instruction} (drafts : Drafts asm (earlier ++ (site, instruction) :: later))
      (operand : Nat) (changed : asm.changeOperand site operand = .ok after) :
      Drafts after (earlier ++ (site, (instruction.withFirst operand).written) :: later)

theorem Drafts.laid (drafts : Drafts asm log) : Laid asm log := by
  induction drafts with
  | empty => exact ⟨rfl, nofun, trivial⟩
  | emit _ instruction ih =>
    exact ih.append (Instruction.whole_written _) (Instruction.encode_written _)
  | emitJump _ op ih => exact ih.append (Instruction.whole_written _) (Instruction.encode_written _)
  | markSource _ position ih =>
    unfold Assembler.markSource
    split
    · exact ih
    · exact ⟨ih.bytes, ih.whole, ih.placed⟩
  | changeOperand _ operand changed ih =>
    exact ih.replace (Instruction.whole_written _) (op_withFirst _ operand)
      (Instruction.encode_written _) changed

end Assembler

/-- A machine that is going to take the jump at hand, and may go on. -/
structure Machine.TakesJump (world : World) (machine : Machine) (op : Opcode) : Prop where
  unasked : world.aborting = false
  timely : machine.expiry? world.store = none
  jumps : machine.jumps world.store op = true
  /-- A conditional jump finds a value on the stack. -/
  filled : op ≠ .jump → 0 < machine.sp ∧ machine.sp ≤ machine.stack.size

namespace Act

variable {world : World} {machine : Machine} {op : Opcode} {target : Nat}

theorem top_of_filled {sp : Nat} (used : machine.sp = sp + 1) (inside : sp < machine.stack.size) :
    top ⟨world, machine⟩ = .ok (machine.stack[sp]?.getD .undefined) ⟨world, machine⟩ := by
  simp only [top, slot, used, Array.getElem?_eq_getElem inside, Option.getD_some]

theorem pop_of_filled {sp : Nat} (used : machine.sp = sp + 1) (inside : sp < machine.stack.size) :
    ∃ popped : Machine, pop ⟨world, machine⟩ =
      .ok (machine.stack[sp]?.getD .undefined) ⟨world, popped⟩ := by
  simp only [pop, used, Array.getElem?_eq_getElem inside, Option.getD_some]
  exact ⟨_, rfl⟩

theorem tip_of_filled (filled : 0 < machine.sp ∧ machine.sp ≤ machine.stack.size) :
    ∃ below, machine.sp = below + 1 ∧ below < machine.stack.size ∧
      ∀ store, machine.tipsFalsy store = (machine.stack[below]?.getD .undefined).isFalsy store := by
  obtain ⟨below, used⟩ : ∃ below, machine.sp = below + 1 := ⟨machine.sp - 1, by omega⟩
  refine ⟨below, used, by omega, fun store => ?_⟩
  rw [Machine.tipsFalsy, used, Nat.add_sub_cancel]

theorem perform_jump (around : Surroundings) (jumps : machine.jumps world.store op = true)
    (filled : op ≠ .jump → 0 < machine.sp ∧ machine.sp ≤ machine.stack.size) :
    ∃ after, perform around ⟨op, [target]⟩ ⟨world, machine⟩ = .ok .proceed after ∧
      after.machine.ip = target := by
  have found (active : Active) (value : Value) :
      readStore (value.isFalsy ·) active = .ok (value.isFalsy active.world.store) active := rfl
  cases op with
  | jump => exact ⟨_, rfl, rfl⟩
  | jumpFalsy =>
    obtain ⟨below, used, inside, tips⟩ := tip_of_filled (filled (by decide))
    obtain ⟨popped, done⟩ : ∃ popped : Machine, pop ⟨world, machine⟩ = .ok _ ⟨world, popped⟩ :=
      pop_of_filled used inside
    refine ⟨⟨world, { popped with ip := target }⟩, (bind_of_ok done).trans ?_, rfl⟩
    rw [bind_of_ok (found _ _), if_pos ((tips _).symm.trans jumps)]
    rfl
  | andJump =>
    obtain ⟨below, used, inside, tips⟩ := tip_of_filled (filled (by decide))
    refine ⟨⟨world, { machine with ip := target }⟩, (bind_of_ok (top_of_filled used inside)).trans ?_, rfl⟩
    rw [bind_of_ok (found _ _), if_pos ((tips _).symm.trans jumps)]
    rfl
  | orJump =>
    obtain ⟨below, used, inside, tips⟩ := tip_of_filled (filled (by decide))
    have truthy : machine.tipsFalsy world.store = false := by
      rwa [Machine.jumps, Bool.not_eq_true'] at jumps
    refine ⟨⟨world, { machine with ip := target }⟩, (bind_of_ok (top_of_filled used inside)).trans ?_, rfl⟩
    rw [bind_of_ok (found _ _), if_neg (Bool.eq_false_iff.mp ((tips _).symm.trans truthy))]
    rfl
  | _ => cases jumps

theorem step_jumps (around : Surroundings) (takes : machine.TakesJump world op)
    (decoded : Instruction.decode? machine.code machine.ip = some ⟨op, [target]⟩) :
    ∃ after, step around ⟨world, machine⟩ = .ok .proceed after ∧ after.machine.ip = target := by
  obtain ⟨found, read⟩ := Instruction.decode?_eq_some decoded
  have same := step_decodes around world found read
  obtain ⟨after, done, ip⟩ := @perform_jump world (machine.decoded op) op target around takes.jumps takes.filled
  rw [bind_of_ok (observe_timely takes.unasked takes.timely)] at same
  have performed : (onMachine (·.decoded op) >>= fun _ => perform around ⟨op, [target]⟩)
      ⟨world, machine⟩ = .ok .proceed after := done
  rw [performed] at same
  exact ⟨after, outcome_eq_ok.mp same, ip⟩

end Act

theorem Machine.widths_of_jumps {machine : Machine} {store : Store} {op : Opcode}
    (jumps : machine.jumps store op = true) : op.widths = [2] := by
  cases op with
  | jump | jumpFalsy | andJump | orJump => rfl
  | _ => cases jumps

namespace Assembler

variable {asm after : Assembler} {earlier rest : List (Nat × Instruction)} {site operand : Nat}
  {instruction : Instruction}

/-- Whatever the code is, a first operand that is changed reads back without the high bits that have no
room. -/
theorem decoded_of_changed (changed : asm.changeOperand site operand = .ok after) :
    ∃ op first operands width widths,
      Instruction.decode? asm.code site = some ⟨op, first :: operands⟩ ∧
      op.widths = width :: widths ∧
      Instruction.decode? after.code site = some ⟨op, operand % 256 ^ width :: operands⟩ := by
  unfold changeOperand at changed
  split at changed
  next op first operands decoded =>
    cases changed
    obtain ⟨whole, before, behind, rfl, bytes⟩ := Instruction.split_of_decoded decoded
    obtain ⟨width, widths, -, -, takes⟩ := List.forall₂_cons_right_iff.mp whole
    refine ⟨op, first, operands, width, widths, decoded, takes, ?_⟩
    have same : (Instruction.mk op (operand :: operands)).written =
        ⟨op, operand % 256 ^ width :: operands⟩ := whole.written_withFirst takes operand
    rw [← same]
    refine (Instruction.whole_written _).decoded (?_ : _ = _ ++ behind)
    rw [Instruction.encode_written, toList_overwrite bytes]
    rw [Instruction.length_encode, Instruction.length_encode]
  · cases changed

/-- A jump that is pointed to the next instruction keeps of the offset what its operand has room for,
whether that is all of it or not, and goes there when it is taken. If the offset has room, the
instruction appended next stands there. -/
theorem patched_jump_keeps_low_bits (asm : Assembler) (site : Nat) :
    (∀ after, asm.patchJump site = .ok after → ∃ op first operands width widths,
      Instruction.decode? asm.code site = some ⟨op, first :: operands⟩ ∧
      op.widths = width :: widths ∧ after.offset = asm.offset ∧
      Instruction.decode? after.code site = some ⟨op, asm.offset % 256 ^ width :: operands⟩) ∧
    ∀ earlier rest instruction, Drafts asm (earlier ++ (site, instruction) :: rest) →
      (instruction.op.widths = [] → asm.patchJump site = .error (.invalidInstruction site)) ∧
      ∀ width widths, instruction.op.widths = width :: widths →
        ∃ after patched, asm.patchJump site = .ok after ∧
          patched = ⟨instruction.op, asm.offset % 256 ^ width :: instruction.operands.tail⟩ ∧
          Drafts after (earlier ++ (site, patched) :: rest) ∧
          ∀ later log, Drafts later log → (site, patched) ∈ log →
            ∀ around world machine, machine.code = later.code → machine.ip = site →
              machine.TakesJump world instruction.op →
              ∃ done, Act.step around ⟨world, machine⟩ = .ok .proceed done ∧
                done.machine.ip = asm.offset % 256 ^ width ∧
                (asm.offset < 256 ^ width → done.machine.ip = asm.offset ∧
                  ∀ next, (asm.offset, next) ∈ log →
                    Instruction.decode? later.code done.machine.ip = some next) := by
  refine ⟨fun after patches => ?_, fun earlier rest instruction drafts => ?_⟩
  · obtain ⟨op, first, operands, width, widths, before, takes, decoded⟩ := decoded_of_changed patches
    exact ⟨op, first, operands, width, widths, before, takes, (kept_changeOperand patches).2, decoded⟩
  have laid := drafts.laid
  have whole := laid.around.2.1
  refine ⟨fun bare => laid.change_bare bare _, fun width widths takes => ?_⟩
  obtain ⟨code, patches, -⟩ := laid.change (by rw [takes]; exact List.cons_ne_nil _ _) asm.offset
  have changed := drafts.changeOperand asm.offset patches
  rw [whole.written_withFirst takes] at changed
  refine ⟨_, _, patches, rfl, changed, ?_⟩
  intro later log drafted member around world machine same here jump
  have decoded := drafted.laid.decoded member
  have single := Machine.widths_of_jumps jump.jumps
  have bare : instruction.operands.tail = [] := by
    have fit : Instruction.Fit instruction.op.widths instruction.operands := whole
    rw [single] at fit
    exact List.eq_nil_of_length_eq_zero (by rw [List.length_tail, ← fit.length_eq]; rfl)
  rw [bare, ← same, ← here] at decoded
  obtain ⟨done, stepped, ip⟩ := Act.step_jumps around jump decoded
  refine ⟨done, stepped, ip, fun room => ?_⟩
  rw [Nat.mod_eq_of_lt room] at ip
  refine ⟨ip, fun next appended => ?_⟩
  rw [ip]
  exact drafted.laid.decoded appended

/-- A jump over one instruction, without its target yet. -/
def ahead : Assembler := (({} : Assembler).emitJump .jump).emit ⟨.pushTrue, []⟩

/-- Its target is known when it is patched, and a machine that takes it goes on with the instruction
that is appended then. -/
theorem patched_jump_keeps_low_bits_ahead : ∃ after, ahead.patchJump 0 = .ok after ∧
    Instruction.decode? after.code 0 = some ⟨.jump, [4]⟩ ∧
    ∃ done, Act.step ⟨{ main := 0 }, fun _ => []⟩
        ⟨{}, { stack := #[], code := (after.emit ⟨.pop, []⟩).code, budget := 0 }⟩ = .ok .proceed done ∧
      done.machine.ip = 4 ∧
      Instruction.decode? (after.emit ⟨.pop, []⟩).code done.machine.ip = some ⟨.pop, []⟩ := by
  have drafts : Drafts ahead ([] ++ (0, ⟨.jump, [0]⟩) :: [(3, ⟨.pushTrue, []⟩)]) :=
    (Drafts.empty.emitJump .jump).emit ⟨.pushTrue, []⟩
  obtain ⟨holds, goes⟩ := patched_jump_keeps_low_bits ahead 0
  obtain ⟨after, patched, patches, rfl, changed, goes⟩ := (goes _ _ _ drafts).2 2 [] rfl
  obtain ⟨-, -, -, -, -, -, -, offset, -⟩ := holds after patches
  have drafted := changed.emit ⟨.pop, []⟩
  rw [offset] at drafted
  obtain ⟨done, stepped, -, room⟩ := goes _ _ drafted (by decide) ⟨{ main := 0 }, fun _ => []⟩ {}
    { stack := #[], code := (after.emit ⟨.pop, []⟩).code, budget := 0 } rfl rfl
    ⟨rfl, rfl, rfl, fun other => absurd rfl other⟩
  obtain ⟨ip, next⟩ := room (by decide)
  exact ⟨after, patches, changed.laid.decoded List.mem_cons_self, done, stepped, ip,
    next ⟨.pop, []⟩ (by decide)⟩

theorem offset_emit (asm : Assembler) (instruction : Instruction) :
    (asm.emit instruction).offset = asm.offset + instruction.op.size := by
  rw [offset, emit, ← Array.length_toList, Array.toList_appendList, List.length_append,
    Instruction.length_encode, Array.length_toList, offset]

/-- The same instruction many times over. -/
theorem drafts_repeat {asm : Assembler} {log : List (Nat × Instruction)} (drafts : Drafts asm log)
    (instruction : Instruction) (count : Nat) :
    ∃ rest, Drafts (Nat.repeat (·.emit instruction) count asm) (log ++ rest) ∧
      (Nat.repeat (·.emit instruction) count asm).offset = asm.offset + count * instruction.op.size := by
  induction count with
  | zero => exact ⟨[], by simpa [Nat.repeat] using drafts, by simp [Nat.repeat]⟩
  | succ count ih =>
    obtain ⟨rest, drafted, offset⟩ := ih
    have next := drafted.emit instruction
    rw [List.append_assoc] at next
    refine ⟨_, next, ?_⟩
    rw [Nat.repeat, offset_emit, offset, Nat.succ_mul, Nat.add_assoc]

/-- A jump over more code than its target can count. -/
def far : Assembler := Nat.repeat (·.emit ⟨.call, []⟩) 13107 (({} : Assembler).emitJump .jump)

/-- It is patched without a complaint, and leads into the middle of itself. -/
theorem far_jump_is_cut : far.offset = 65538 ∧ ∃ after, far.patchJump 0 = .ok after ∧
    Instruction.decode? after.code 0 = some ⟨.jump, [2]⟩ := by
  obtain ⟨rest, drafts, offset⟩ := drafts_repeat (Drafts.empty.emitJump .jump) ⟨.call, []⟩ 13107
  have whole : far.offset = 65538 := offset
  obtain ⟨code, patches, -⟩ := @Laid.change far [] rest 0 ⟨.jump, [0]⟩ drafts.laid (by decide) far.offset
  have changed := @Drafts.changeOperand far _ [] rest 0 ⟨.jump, [0]⟩ drafts far.offset patches
  refine ⟨whole, _, patches, ?_⟩
  rw [changed.laid.decoded List.mem_cons_self, whole]
  rfl

end Assembler

end ScriptMachine
