import ScriptMachine.Proofs.CallBinding
import ScriptMachine.Proofs.Halting

/-! Instructions once they are decoded. Handlers read their operands byte by byte; what they do with
them is said here of the operands themselves, and the table of widths says which bytes those are. -/

namespace ScriptMachine

/-- The machine once it has read a whole instruction at the place where its code goes on. -/
def Machine.decoded (machine : Machine) (op : Opcode) : Machine :=
  { machine with ip := machine.ip + op.size, opIp := machine.ip, ticks := machine.ticks + 1 }

def Machine.localPlace (machine : Machine) (index : Nat) : Except Fault Nat :=
  match machine.frames with
  | [] => .error .stackUnderflow
  | frame :: _ =>
    if frame.base + index < machine.stack.size then .ok (frame.base + index)
    else .error .stackOverflow

namespace Act

variable {α : Type}

def localAt (index : Nat) : Act Nat := do
  let base := (← frame).base
  if base + index < (← readMachine (·.stack.size)) then return base + index
  fail .stackOverflow

def callWith (count : Nat) (spreads keyed catches : Bool) : Act CallSite := do
  let start ← argumentStart (count + spreads.toNat + keyed.toNat + catches.toNat)
  let callee ← slot (start - 1)
  requireCallable callee
  let positional ← slots start (start + count)
  let more ← spreadArguments spreads (start + count)
  let maps ← slots (start + count + spreads.toNat) (← readMachine (·.sp))
  let keywords ← gatherKeywords {} maps.toList
  return { start, callee, arguments := positional ++ more, keywords }

def callAt (around : Surroundings) (site : CallSite) : Act Next := do
  match ← resolve around site with
  | .function ref arguments =>
    enter around.program.limits ref arguments site.keywords site.start
    return .proceed
  | .native callee context fromStack =>
    return .await (.invoke callee context) (.native site.start fromStack)

def closureOf (program : Program) (index count : Nat) : Act Unit := do
  match program.constants[index]? with
  | some (.function ref) =>
    let code := (← readStore (·.function ref)).code
    let values ← popMany count
    let free ← onStore (captured values.toList)
    charge program.limits
    push (.function (← onStore (StoreM.newFunction code free.toArray)))
  | some other => fail (.notCallable (other.kind (← readStore id)))
  | none => failHere

/-- What a return hands on, if it is to hand on a value. -/
def handedOn (valued : Bool) : Act Value := do
  if valued then pop else return .undefined

def performOne (around : Surroundings) (op : Opcode) (operand : Nat) : Act Next := do
  match op with
  | .constant =>
    match around.program.constants[operand]? with
    | some value => thenProceed (push value)
    | none => failHere
  | .binary =>
    match Operator.ofByte? operand.toUInt8 with
    | none => failHere
    | some operator =>
      let right ← pop
      let left ← pop
      let result ← onStore (Value.binary operator left right)
      thenProceed (pushCharged around.program.limits result)
  | .jump => thenProceed (jumpTo operand)
  | .jumpFalsy =>
    let value ← pop
    if ← readStore (value.isFalsy ·) then thenProceed (jumpTo operand) else return .proceed
  | .andJump =>
    let value ← top
    if ← readStore (value.isFalsy ·) then thenProceed (jumpTo operand)
    else
      let _ ← pop
      return .proceed
  | .orJump =>
    let value ← top
    if ← readStore (value.isFalsy ·) then
      let _ ← pop
      return .proceed
    else thenProceed (jumpTo operand)
  | .getGlobal => do thenProceed (push (← global operand))
  | .setGlobal =>
    let value ← pop
    thenProceed (setGlobal operand value)
  | .getLocal =>
    let index ← localAt operand
    thenProceed (push (← unboxed (← slot index)))
  | .setLocal =>
    let index ← localAt operand
    let value ← pop
    match ← slot index with
    | .box ref => thenProceed (onStore (StoreM.write ref (.box value)))
    | _ => thenProceed (setSlot index value)
  | .defineLocal =>
    let index ← localAt operand
    let value ← pop
    thenProceed (setSlot index value)
  | .getLocalBox =>
    let index ← localAt operand
    match ← slot index with
    | .box ref => thenProceed (push (.box ref))
    | value =>
      let ref ← onStore (StoreM.newBox value)
      setSlot index (.box ref)
      thenProceed (push (.box ref))
  | .getBuiltin =>
    match around.program.builtins[operand]? with
    | some value => thenProceed (push value)
    | none => failHere
  | .getFree => do thenProceed (push (← readStore (·.boxed (← freeBox operand))))
  | .setFree =>
    let value ← pop
    let box ← freeBox operand
    thenProceed (onStore (StoreM.write box (.box value)))
  | .getFreeBox => do thenProceed (push (.box (← freeBox operand)))
  | .array =>
    let elements ← popMany operand
    charge around.program.limits
    thenProceed (push (← onStore (StoreM.newArray elements .writable)))
  | .map =>
    let elements ← popMany operand
    let entries ← ofExcept (pairUp (← readStore id) {} elements.toList)
    charge around.program.limits
    thenProceed (push (← onStore (StoreM.newMap entries .writable)))
  | .ret => do leave (← handedOn (operand ≠ 0))
  | _ => fail (.unknownOpcode op.byte)

def performTwo (around : Surroundings) (op : Opcode) (first second : Nat) : Act Next := do
  match op with
  | .setGlobalPath => assignPath (← global first) second
  | .setLocalPath =>
    let index ← localAt first
    assignPath (← unboxed (← slot index)) second
  | .setFreePath => assignPath (← readStore (·.boxed (← freeBox first))) second
  | .closure => thenProceed (closureOf around.program first second)
  | _ => fail (.unknownOpcode op.byte)

def perform (around : Surroundings) (instruction : Instruction) : Act Next :=
  match instruction.operands with
  | [] => execute around instruction.op
  | [operand] => performOne around instruction.op operand
  | [first, second] => performTwo around instruction.op first second
  | [count, spreads, keyed, catches] =>
    do callAt around (← callWith count (spreads ≠ 0) (keyed ≠ 0) (catches ≠ 0))
  | _ => fail (.unknownOpcode instruction.op.byte)

/-- What an act comes to. Where the code stands does not matter once it has failed. -/
def outcome : EStateM.Result Stop Active α → EStateM.Result Stop Active α
  | .ok value after => .ok value after
  | .error stop ⟨world, machine⟩ => .error stop ⟨world, { machine with ip := 0 }⟩

theorem outcome_eq_ok {result : EStateM.Result Stop Active α} {value : α} {after : Active} :
    outcome result = .ok value after ↔ result = .ok value after := by
  cases result with
  | ok => rfl
  | error => simp [outcome]

/-- An act whose first part comes to the same goes on in the same way. -/
theorem bind_of_eq {β : Type} {first other : Act α} {rest : α → Act β} {active later : Active}
    (same : first active = other later) : (first >>= rest) active = (other >>= rest) later := by
  simp only [Bind.bind, EStateM.bind, same]

section Reading

variable {world : World} {machine : Machine} {rest : Nat → Act α} {operand : Nat}

theorem readByte_bind (found : Instruction.readByte? machine.code machine.ip = some operand) :
    (readByte >>= rest) ⟨world, machine⟩ = rest operand ⟨world, machine.past 1⟩ := by
  apply bind_of_ok
  simp only [readByte, found]
  rfl

theorem readPair_bind (found : Instruction.readPair? machine.code machine.ip = some operand) :
    (readPair >>= rest) ⟨world, machine⟩ = rest operand ⟨world, machine.past 2⟩ := by
  apply bind_of_ok
  simp only [readPair, found]
  rfl

theorem readFlag_bind {rest : Bool → Act α}
    (found : Instruction.readByte? machine.code machine.ip = some operand) :
    (readFlag >>= rest) ⟨world, machine⟩ = rest (operand ≠ 0) ⟨world, machine.past 1⟩ := by
  apply bind_of_ok
  exact readByte_bind found

theorem localAt_eq (world : World) (machine : Machine) (index : Nat) :
    localAt index ⟨world, machine⟩ = ofExcept (machine.localPlace index) ⟨world, machine⟩ := by
  simp only [localAt, Machine.localPlace, Bind.bind, EStateM.bind, frame, readMachine]
  cases machine.frames with
  | nil => rfl
  | cons frame callers =>
    by_cases inside : frame.base + index < machine.stack.size
    · simp only [if_pos inside]
      rfl
    · simp only [if_neg inside]
      rfl

theorem localSlot_eq (found : Instruction.readByte? machine.code machine.ip = some operand) :
    localSlot ⟨world, machine⟩ = localAt operand ⟨world, machine.past 1⟩ := readByte_bind found

end Reading

section Executing

variable {world : World} {machine : Machine} {op : Opcode} {operands : List Nat}

/-- A handler that reads a second operand behind the choice of a local variable may as well read it in
front of that, since the choice depends on the frame and the stack only. -/
theorem localAt_bind_readByte {count : Nat} {rest : Nat → Nat → Act α}
    (found : Instruction.readByte? machine.code machine.ip = some count) (index : Nat) :
    outcome ((localAt index >>= fun place => readByte >>= rest place) ⟨world, machine⟩) =
      outcome ((localAt index >>= fun place => rest place count) ⟨world, machine.past 1⟩) := by
  have before := localAt_eq world machine index
  have after : localAt index ⟨world, machine.past 1⟩ =
      ofExcept (machine.localPlace index) ⟨world, machine.past 1⟩ := localAt_eq world _ index
  cases place : machine.localPlace index with
  | ok slot =>
    rw [place] at before after
    rw [bind_of_ok before, bind_of_ok after, readByte_bind found]
  | error fault =>
    rw [place] at before after
    rw [bind_of_error before, bind_of_error after]
    rfl

theorem readOperands?_cons {code : Array UInt8} {offset width : Nat} {widths : List Nat}
    (read : Instruction.readOperands? code offset (width :: widths) = some operands) :
    ∃ operand rest, operands = operand :: rest ∧
      Instruction.readOperand? code offset width = some operand ∧
      Instruction.readOperands? code (offset + width) widths = some rest := by
  simp only [Instruction.readOperands?, Option.bind_eq_bind, Option.bind_eq_some_iff,
    Option.pure_def, Option.some.injEq] at read
  obtain ⟨operand, first, rest, others, rfl⟩ := read
  exact ⟨operand, rest, rfl, first, others⟩

theorem readOperands?_nil {code : Array UInt8} {offset : Nat}
    (read : Instruction.readOperands? code offset [] = some operands) : operands = [] :=
  (Option.some.inj read).symm

/-- A handler does with the bytes behind its operation what is said of the operands that the table of
widths makes of them, and it reads no others. -/
theorem execute_eq_perform (around : Surroundings)
    (read : Instruction.readOperands? machine.code machine.ip op.widths = some operands) :
    outcome (execute around op ⟨world, machine⟩) =
      outcome (perform around ⟨op, operands⟩
        ⟨world, machine.past (Opcode.totalWidth op.widths)⟩) := by
  cases op with
  | constant | getGlobal | setGlobal | jump | jumpFalsy | andJump | orJump | array | map =>
    obtain ⟨operand, rest, rfl, first, others⟩ := readOperands?_cons read
    obtain rfl := readOperands?_nil others
    exact congrArg outcome (readPair_bind first)
  | binary | getBuiltin | getFree | setFree | getFreeBox =>
    obtain ⟨operand, rest, rfl, first, others⟩ := readOperands?_cons read
    obtain rfl := readOperands?_nil others
    exact congrArg outcome (readByte_bind first)
  | getLocal | setLocal | defineLocal | getLocalBox =>
    obtain ⟨operand, rest, rfl, first, others⟩ := readOperands?_cons read
    obtain rfl := readOperands?_nil others
    exact congrArg outcome (bind_of_eq (localSlot_eq first))
  | ret =>
    obtain ⟨operand, rest, rfl, first, others⟩ := readOperands?_cons read
    obtain rfl := readOperands?_nil others
    exact congrArg outcome (bind_of_eq (readFlag_bind first))
  | setGlobalPath =>
    obtain ⟨index, rest, rfl, first, more⟩ := readOperands?_cons read
    obtain ⟨count, rest, rfl, second, others⟩ := readOperands?_cons more
    obtain rfl := readOperands?_nil others
    exact congrArg outcome
      ((readPair_bind first).trans (@readByte_bind _ _ (machine.past 2) _ _ second))
  | closure =>
    obtain ⟨index, rest, rfl, first, more⟩ := readOperands?_cons read
    obtain ⟨count, rest, rfl, second, others⟩ := readOperands?_cons more
    obtain rfl := readOperands?_nil others
    exact congrArg outcome (bind_of_eq
      ((readPair_bind first).trans (@readByte_bind _ _ (machine.past 2) _ _ second)))
  | setFreePath =>
    obtain ⟨index, rest, rfl, first, more⟩ := readOperands?_cons read
    obtain ⟨count, rest, rfl, second, others⟩ := readOperands?_cons more
    obtain rfl := readOperands?_nil others
    exact congrArg outcome
      ((readByte_bind first).trans (@readByte_bind _ _ (machine.past 1) _ _ second))
  | setLocalPath =>
    obtain ⟨index, rest, rfl, first, more⟩ := readOperands?_cons read
    obtain ⟨count, rest, rfl, second, others⟩ := readOperands?_cons more
    obtain rfl := readOperands?_nil others
    refine (congrArg outcome (bind_of_eq (localSlot_eq first))).trans ?_
    exact @localAt_bind_readByte _ _ (machine.past 1) _ _ second index
  | call =>
    obtain ⟨count, rest, rfl, first, more⟩ := readOperands?_cons read
    obtain ⟨spreads, rest, rfl, second, more⟩ := readOperands?_cons more
    obtain ⟨keyed, rest, rfl, third, more⟩ := readOperands?_cons more
    obtain ⟨catches, rest, rfl, fourth, others⟩ := readOperands?_cons more
    obtain rfl := readOperands?_nil others
    have found : callSite ⟨world, machine⟩ =
        callWith count (spreads ≠ 0) (keyed ≠ 0) (catches ≠ 0) ⟨world, machine.past 4⟩ :=
      (readByte_bind first).trans ((@readFlag_bind _ _ (machine.past 1) _ _ second).trans
        ((@readFlag_bind _ _ (machine.past 2) _ _ third).trans
          (@readFlag_bind _ _ (machine.past 3) _ _ fourth)))
    exact congrArg outcome (bind_of_eq found)
  | _ =>
    obtain rfl := readOperands?_nil read
    rfl

/-- On this machine the act fails and changes nothing but the place where the code stands. -/
def Starves (act : Act α) (world : World) (machine : Machine) : Prop :=
  ∃ fault ip, act ⟨world, machine⟩ = .error (.fault fault) ⟨world, { machine with ip }⟩

namespace Starves

variable {β : Type} {act : Act α} {rest : α → Act β}

theorem bind (starves : Starves act world machine) : Starves (act >>= rest) world machine := by
  obtain ⟨fault, ip, failed⟩ := starves
  exact ⟨fault, ip, bind_of_error failed⟩

theorem ofEq {other : Act α} {bytes : Nat}
    (same : act ⟨world, machine⟩ = other ⟨world, machine.past bytes⟩)
    (starves : Starves other world (machine.past bytes)) : Starves act world machine := by
  obtain ⟨fault, ip, failed⟩ := starves
  exact ⟨fault, ip, same.trans failed⟩

end Starves

theorem starves_readByte (missing : Instruction.readByte? machine.code machine.ip = none) :
    Starves readByte world machine := by
  refine ⟨.invalidInstruction machine.opIp, machine.ip, ?_⟩
  simp only [readByte, missing]

theorem starves_readPair (missing : Instruction.readPair? machine.code machine.ip = none) :
    Starves readPair world machine := by
  refine ⟨.invalidInstruction machine.opIp, machine.ip, ?_⟩
  simp only [readPair, missing]

theorem readOperands?_cons_none {code : Array UInt8} {offset width : Nat} {widths : List Nat}
    (cut : Instruction.readOperands? code offset (width :: widths) = none) :
    Instruction.readOperand? code offset width = none ∨
      ∃ operand, Instruction.readOperand? code offset width = some operand ∧
        Instruction.readOperands? code (offset + width) widths = none := by
  cases first : Instruction.readOperand? code offset width with
  | none => exact .inl rfl
  | some operand =>
    refine .inr ⟨operand, rfl, ?_⟩
    cases others : Instruction.readOperands? code (offset + width) widths with
    | none => rfl
    | some rest =>
      simp only [Instruction.readOperands?, first, others, Option.bind_eq_bind, Option.bind_some,
        Option.pure_def, reduceCtorEq] at cut

theorem readOperands?_nil_ne {code : Array UInt8} {offset : Nat} :
    Instruction.readOperands? code offset [] ≠ none := by
  rintro ⟨⟩

/-- The number of selectors is read behind the choice of a local variable, which may fail first. -/
theorem starves_localAt_readByte {rest : Nat → Nat → Act α}
    (missing : Instruction.readByte? machine.code machine.ip = none) (index : Nat) :
    Starves (localAt index >>= fun place => readByte >>= rest place) world machine := by
  have chosen := localAt_eq world machine index
  cases place : machine.localPlace index with
  | ok slot =>
    rw [place] at chosen
    obtain ⟨fault, ip, failed⟩ := @Starves.bind _ _ _ _ _ (rest slot) (starves_readByte missing)
    exact ⟨fault, ip, (bind_of_ok chosen).trans failed⟩
  | error fault =>
    rw [place] at chosen
    exact ⟨fault, machine.ip, bind_of_error chosen⟩

/-- An operation whose operands the code does not hold fails before it does anything. The first operand
that is cut off ends the operation, and those before it are only read. -/
theorem starves_execute (around : Surroundings)
    (cut : Instruction.readOperands? machine.code machine.ip op.widths = none) :
    Starves (execute around op) world machine := by
  cases op with
  | constant | getGlobal | setGlobal | jump | jumpFalsy | andJump | orJump | array | map =>
    obtain first | ⟨_, _, others⟩ := readOperands?_cons_none cut
    · exact (starves_readPair first).bind
    · exact absurd others readOperands?_nil_ne
  | binary | getBuiltin | getFree | setFree | getFreeBox =>
    obtain first | ⟨_, _, others⟩ := readOperands?_cons_none cut
    · exact (starves_readByte first).bind
    · exact absurd others readOperands?_nil_ne
  | getLocal | setLocal | defineLocal | getLocalBox =>
    obtain first | ⟨_, _, others⟩ := readOperands?_cons_none cut
    · exact (starves_readByte first).bind.bind
    · exact absurd others readOperands?_nil_ne
  | ret =>
    obtain first | ⟨_, _, others⟩ := readOperands?_cons_none cut
    · exact (starves_readByte first).bind.bind.bind
    · exact absurd others readOperands?_nil_ne
  | setGlobalPath =>
    obtain first | ⟨index, first, more⟩ := readOperands?_cons_none cut
    · exact (starves_readPair first).bind
    obtain second | ⟨_, _, others⟩ := readOperands?_cons_none more
    · exact .ofEq (readPair_bind first) (@starves_readByte _ (machine.past 2) second).bind
    · exact absurd others readOperands?_nil_ne
  | closure =>
    obtain first | ⟨index, first, more⟩ := readOperands?_cons_none cut
    · exact (starves_readPair first).bind.bind
    obtain second | ⟨_, _, others⟩ := readOperands?_cons_none more
    · refine .bind ?_
      exact .ofEq (readPair_bind first) (@starves_readByte _ (machine.past 2) second).bind
    · exact absurd others readOperands?_nil_ne
  | setFreePath =>
    obtain first | ⟨index, first, more⟩ := readOperands?_cons_none cut
    · exact (starves_readByte first).bind
    obtain second | ⟨_, _, others⟩ := readOperands?_cons_none more
    · exact .ofEq (readByte_bind first) (@starves_readByte _ (machine.past 1) second).bind
    · exact absurd others readOperands?_nil_ne
  | setLocalPath =>
    obtain first | ⟨index, first, more⟩ := readOperands?_cons_none cut
    · exact (starves_readByte first).bind.bind
    obtain second | ⟨_, _, others⟩ := readOperands?_cons_none more
    · refine .ofEq (bind_of_eq (localSlot_eq first)) ?_
      exact @starves_localAt_readByte _ _ (machine.past 1) _ second index
    · exact absurd others readOperands?_nil_ne
  | call =>
    refine @Starves.bind _ _ _ _ callSite _ ?_
    obtain first | ⟨count, first, more⟩ := readOperands?_cons_none cut
    · exact (starves_readByte first).bind
    refine .ofEq (readByte_bind first) ?_
    obtain second | ⟨spreads, second, more⟩ := readOperands?_cons_none more
    · exact (@starves_readByte _ (machine.past 1) second).bind.bind
    refine .ofEq (@readFlag_bind _ _ (machine.past 1) _ _ second) ?_
    obtain third | ⟨keyed, third, more⟩ := readOperands?_cons_none more
    · exact (@starves_readByte _ (machine.past 2) third).bind.bind
    refine .ofEq (@readFlag_bind _ _ (machine.past 2) _ _ third) ?_
    obtain fourth | ⟨_, _, others⟩ := readOperands?_cons_none more
    · exact (@starves_readByte _ (machine.past 3) fourth).bind.bind
    · exact absurd others readOperands?_nil_ne
  | _ => exact absurd cut readOperands?_nil_ne

theorem decode?_eq {code : Array UInt8} {offset : Nat} (found : code[offset]? = some op.byte) :
    Instruction.decode? code offset =
      (Instruction.readOperands? code (offset + 1) op.widths).map (⟨op, ·⟩) := by
  simp only [Instruction.decode?, found, Option.bind_eq_bind, Option.bind_some,
    Opcode.ofByte?_byte, Option.map_eq_bind]
  rfl

/-- An instruction that does not fail is a whole one, and does what is said of it when decoded. -/
theorem step_eq_perform {around : Surroundings} {next : Next} {after : Active}
    (stepped : step around ⟨world, machine⟩ = .ok next after) :
    ∃ instruction, Instruction.decode? machine.code machine.ip = some instruction ∧
      perform around instruction ⟨world, machine.decoded instruction.op⟩ = .ok next after := by
  obtain ⟨op, found, executed⟩ := step_eq_ok stepped
  cases read : Instruction.readOperands? machine.code (machine.ip + 1) op.widths with
  | none =>
    obtain ⟨fault, ip, failed⟩ := @starves_execute world machine.fetched op around read
    cases executed.symm.trans failed
  | some operands =>
    refine ⟨⟨op, operands⟩, by rw [decode?_eq found, read]; rfl, ?_⟩
    have same := @execute_eq_perform world machine.fetched op operands around read
    have place : machine.fetched.past (Opcode.totalWidth op.widths) = machine.decoded op := by
      simp only [Machine.past, Machine.fetched, Machine.decoded, Opcode.size, Nat.add_assoc]
    rw [executed, place] at same
    exact outcome_eq_ok.mp same.symm

end Executing

end Act

end ScriptMachine
