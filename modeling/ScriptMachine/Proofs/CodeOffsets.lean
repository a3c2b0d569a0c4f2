import ScriptMachine.Proofs.ChildFrames
import ScriptMachine.Proofs.StackEffects

/-! Where the code goes on. The table of widths says how long each instruction is and what its
operands are, and every handler agrees with it. -/

namespace ScriptMachine

namespace Act

variable {around : Surroundings} {world : World} {machine : Machine} {op : Opcode} {next : Next}
  {active after : Active}

theorem observe_result (world : World) (machine : Machine) :
    observe ⟨world, machine⟩ = .ok () ⟨world, machine⟩ ∨
      ∃ fault aborting, observe ⟨world, machine⟩ =
        .error (.fault fault) ⟨{ world with aborting }, machine⟩ := by
  obtain ⟨store, globals, aborting⟩ := world
  cases aborting with
  | true => exact .inr ⟨.aborted, true, rfl⟩
  | false =>
    cases expired : machine.expiry? store with
    | some fault =>
      refine .inr ⟨fault, true, ?_⟩
      simp only [observe, expired]
      rfl
    | none =>
      left
      simp only [observe, expired]
      rfl

/-- A step that fails has not begun, has found no operation or has executed the one that it found. -/
theorem step_eq_error {stop : Stop} (failed : step around ⟨world, machine⟩ = .error stop after) :
    (observe ⟨world, machine⟩ = .error stop after ∧ after.machine = machine) ∨
      fetch ⟨world, machine⟩ = .error stop after ∨
        ∃ op : Opcode, machine.code[machine.ip]? = some op.byte ∧
          execute around op ⟨world, machine.fetched⟩ = .error stop after := by
  obtain observed | ⟨fault, aborting, observed⟩ := observe_result world machine
  · rw [step, bind_of_ok observed] at failed
    cases fetched : fetch ⟨world, machine⟩ with
    | error reason middle =>
      cases (bind_of_error fetched).symm.trans failed
      exact .inr (.inl rfl)
    | ok op middle =>
      obtain ⟨found, rfl⟩ := fetch_eq_ok fetched
      rw [bind_of_ok fetched] at failed
      exact .inr (.inr ⟨op, found, failed⟩)
  · cases (bind_of_error observed).symm.trans failed
    exact .inl ⟨observed, rfl⟩

/-- A step skips the bytes that the table of widths gives to its instruction, and uses the operands
that the table makes of them. -/
theorem step_decodes (around : Surroundings) (world : World) {operands : List Nat}
    (found : machine.code[machine.ip]? = some op.byte)
    (read : Instruction.readOperands? machine.code (machine.ip + 1) op.widths = some operands) :
    outcome (step around ⟨world, machine⟩) = outcome ((do
      observe
      onMachine (·.decoded op)
      perform around ⟨op, operands⟩ : Act Next) ⟨world, machine⟩) := by
  obtain observed | ⟨fault, aborting, observed⟩ := observe_result world machine
  · have place : machine.fetched.past (Opcode.totalWidth op.widths) = machine.decoded op := by
      simp only [Machine.past, Machine.fetched, Machine.decoded, Opcode.size, Nat.add_assoc]
    have same := @execute_eq_perform world machine.fetched op operands around read
    rw [place] at same
    rw [step, bind_of_ok observed, bind_of_ok observed, bind_of_ok (fetch_eq world found)]
    exact same
  · rw [step, bind_of_error observed, bind_of_error observed]

/-- Without all bytes of its operands an instruction fails, and of the machine and the world only the
place in the code changes, or a note that the run has to stop. -/
theorem step_starves (around : Surroundings) (world : World)
    (found : machine.code[machine.ip]? = some op.byte)
    (cut : Instruction.readOperands? machine.code (machine.ip + 1) op.widths = none) :
    ∃ fault aborting ip opIp ticks, step around ⟨world, machine⟩ =
      .error (.fault fault) ⟨{ world with aborting }, { machine with ip, opIp, ticks }⟩ := by
  obtain observed | ⟨fault, aborting, observed⟩ := observe_result world machine
  · obtain ⟨fault, ip, failed⟩ := @starves_execute world machine.fetched op around cut
    refine ⟨fault, world.aborting, ip, machine.ip, machine.ticks + 1, ?_⟩
    rw [step, bind_of_ok observed, bind_of_ok (fetch_eq world found)]
    exact failed
  · exact ⟨fault, aborting, machine.ip, machine.opIp, machine.ticks, bind_of_error observed⟩

/-- How a function is entered: in the running frame, which it takes over, or in one of its own. -/
inductive Enters (ref : Ref) (machine after : Machine) : Prop where
  | again {frameSize : Nat} {parameters arguments : Array Value} {keywords : Table Value}
      (reuses : machine.reusesFrame ref = true) (few : parameters.size ≤ frameSize)
      (same : after = machine.restartFrame frameSize parameters arguments keywords)
  | anew {frame : Frame} {parameters : Array Value} (own : machine.reusesFrame ref = false)
      (function : frame.function = some ref) (few : parameters.size ≤ frame.code.frameSize)
      (same : after = machine.pushFrame frame parameters)

theorem allowed_of_changeUnless {stop? : Machine → Option Stop} {change : Machine → Machine}
    (changed : changeUnless stop? change active = .ok () after) : stop? active.machine = none := by
  unfold changeUnless at changed
  dsimp only at changed
  split at changed
  · cases changed
  next allowed => exact allowed

theorem enters_enter {limits : Limits} {ref : Ref} {arguments : Array Value} {keywords : Table Value}
    {start : Nat} (entered : enter limits ref arguments keywords start active = .ok () after) :
    Enters ref active.machine after.machine := by
  obtain ⟨callee, -, rest⟩ := (looks_readStore _).bind_eq_ok entered
  obtain ⟨parameters, middle, bound, rest⟩ := bind_eq_ok rest
  obtain ⟨store, made, rfl⟩ := onStore_eq_ok bound
  have few : parameters.size ≤ callee.code.frameSize := by
    rw [StoreM.size_bindArguments made]
    exact Nat.le_max_right _ _
  obtain ⟨reuses, read, rest⟩ := (looks_readMachine _).bind_eq_ok rest
  cases read
  split at rest
  next again =>
    simp only [reenterFrame] at rest
    exact .again again few (congrArg Active.machine (changeUnless_eq_ok rest))
  next anew =>
    simp only [enterFrame] at rest
    exact .anew (Bool.eq_false_iff.mpr anew) rfl few (congrArg Active.machine (changeUnless_eq_ok rest))

theorem perform_ret {operand : Nat}
    (returned : perform around ⟨.ret, [operand]⟩ ⟨world, machine⟩ = .ok next after) :
    next = .halt ∨ ∃ result middle,
      machine.Shifts none (decide (operand ≠ 0)).toNat 0 middle ∧ middle.popStop? = none ∧
      after.machine = middle.popFrame result ∧ next = .proceed := by
  obtain ⟨result, middle, handed, rest⟩ := bind_eq_ok returned
  have shifts : machine.Shifts none (decide (operand ≠ 0)).toNat 0 middle.machine := by
    unfold handedOn at handed
    split at handed
    next valued =>
      rw [valued]
      exact effect_pop _ _ _ handed
    next bare =>
      rw [Bool.eq_false_iff.mpr bare]
      cases handed
      exact .refl none machine
  obtain ⟨depth, -, rest⟩ := (looks_readMachine _).bind_eq_ok rest
  split at rest
  · cases rest
    exact .inl rfl
  · obtain ⟨_, last, left, rest⟩ := bind_eq_ok rest
    have allowed := allowed_of_changeUnless left
    obtain rfl := changeUnless_eq_ok left
    cases rest
    exact .inr ⟨result, middle.machine, shifts, allowed, rfl, rfl⟩

end Act

namespace Machine

/-- Where an instruction leads that is completed: what its operation and its operands say of the place
in the code where the machine goes on, and of the calls in progress. -/
inductive Leads (store : Store) (machine : Machine) (instruction : Instruction) (after : Machine) :
    Prop where
  | jumps (jumps : machine.jumps store instruction.op = true) (ip : after.ip = instruction.operand 0)
      (calls : after.calls = machine.calls)
  /-- A function is called. The running frame notes where it goes on. -/
  | enters {ref : Ref} {frame : Frame} (call : instruction.op = .call)
      (entered : (machine.calleeBelow instruction.argumentSlots).entered? = some ref)
      (own : (machine.decoded instruction.op).reusesFrame ref = false) (ip : after.ip = 0)
      (function : frame.function = some ref)
      (calls : after.calls = (machine.calls.changeTop fun caller =>
        { caller with resume := machine.ip + instruction.op.size }).push frame)
  /-- A function calls itself and returns at once. No frame is added. -/
  | restarts {ref : Ref} {arguments : Array Value} {keywords : Table Value}
      (call : instruction.op = .call)
      (entered : (machine.calleeBelow instruction.argumentSlots).entered? = some ref)
      (reuses : (machine.decoded instruction.op).reusesFrame ref = true) (ip : after.ip = 0)
      (calls : after.calls = machine.calls.changeTop fun frame => { frame with arguments, keywords })
  | returns {frame caller : Frame} {callers : List Frame} (ret : instruction.op = .ret)
      (top : machine.frames = frame :: caller :: callers) (ip : after.ip = caller.resume)
      (calls : after.frames = caller :: callers)
  | passes (stays : instruction.op ≠ .ret)
      (foreign : instruction.op = .call →
        (machine.calleeBelow instruction.argumentSlots).entered? = none)
      (passes : machine.jumps store instruction.op = false)
      (ip : after.ip = machine.ip + instruction.op.size) (calls : after.calls = machine.calls)

end Machine

namespace Execution

variable {setting : Setting} {chain : List Suspended} {world : World} {machine : Machine}
  {after : Active} {instruction : Instruction}

theorem Completes.leads_call (completes : Completes setting chain ⟨world, machine⟩ after)
    (decoded : Instruction.decode? machine.code machine.ip = some instruction)
    (call : instruction.op = .call) : machine.Leads world.store instruction after.machine := by
  cases entered : (machine.calleeBelow instruction.argumentSlots).entered? with
  | none =>
    obtain ⟨shifts, -⟩ := completes.shifts_native decoded call entered
    refine .passes (by rw [call]; decide) (fun _ => entered) (by rw [call]; rfl) shifts.ip ?_
    exact congrArg Setup.calls shifts.setup
  | some ref =>
    obtain ⟨_, next, active, found, -, performed, settles⟩ := completes.performs
    cases decoded.symm.trans found
    have whole := Instruction.length_operands (Instruction.decode?_eq_some decoded).2
    obtain ⟨op, operands⟩ := instruction
    cases call
    cases Act.calls_perform whole performed with
    | waits enough foreign => cases entered.symm.trans foreign
    | enters stands known begun =>
      cases entered.symm.trans known
      cases settles
      cases Act.enters_enter begun with
      | again reuses few same =>
        exact .restarts rfl entered reuses (by rw [same]; rfl) (by rw [same]; rfl)
      | anew own function few same =>
        exact .enters rfl entered own (by rw [same]; rfl) function (by rw [same]; rfl)

theorem Completes.leads_return (completes : Completes setting chain ⟨world, machine⟩ after)
    (decoded : Instruction.decode? machine.code machine.ip = some instruction)
    (ret : instruction.op = .ret) : machine.Leads world.store instruction after.machine := by
  obtain ⟨_, next, active, found, -, performed, settles⟩ := completes.performs
  cases decoded.symm.trans found
  have whole := Instruction.length_operands (Instruction.decode?_eq_some decoded).2
  obtain ⟨op, operands⟩ := instruction
  cases ret
  match operands with
  | [operand] =>
    obtain rfl | ⟨result, middle, shifts, allowed, changed, rfl⟩ := Act.perform_ret performed
    · cases settles
    cases settles
    obtain ⟨frame, caller, callers, top, -, -⟩ := Machine.popStop?_eq_none allowed
    have same : middle.calls = machine.calls := congrArg Setup.calls shifts.setup
    have above : machine.frames = frame :: caller :: callers := by
      rw [Machine.frames, ← same]
      exact top
    rw [Machine.popFrame_eq _ _ top] at changed
    refine .returns rfl above (by rw [changed]) ?_
    rw [changed]
    exact congrArg List.tail top

theorem Completes.leads (completes : Completes setting chain ⟨world, machine⟩ after)
    (decoded : Instruction.decode? machine.code machine.ip = some instruction) :
    machine.Leads world.store instruction after.machine := by
  by_cases call : instruction.op = .call
  · exact completes.leads_call decoded call
  by_cases ret : instruction.op = .ret
  · exact completes.leads_return decoded ret
  have shifts := completes.shifts_plain decoded ret call
  have calls : after.machine.calls = machine.calls := congrArg Setup.calls shifts.setup
  have ip := shifts.ip
  cases jumps : machine.jumps world.store instruction.op with
  | true =>
    refine .jumps jumps (ip.trans ?_) calls
    exact if_pos jumps
  | false =>
    refine .passes ret (fun asked => absurd asked call) jumps (ip.trans ?_) calls
    exact if_neg (Bool.eq_false_iff.mp jumps)

/-- Every instruction uses the operands that the table of widths makes of the bytes behind its
operation, and is as long as the table says. A completed one goes on behind its last byte, unless it
jumps, enters a function or returns from one. An instruction whose bytes the code does not hold fails
and changes no slot, no global and no cell. -/
theorem instruction_follows_widths {setting : Setting} {chain : List Suspended} {world : World}
    {machine : Machine} {op : Opcode} (found : machine.code[machine.ip]? = some op.byte) :
    (∀ operands, Instruction.readOperands? machine.code (machine.ip + 1) op.widths = some operands →
      Act.outcome (Act.step ⟨setting.program, fun _ => setting.outside chain⟩ ⟨world, machine⟩) =
        Act.outcome ((do
          Act.observe
          Act.onMachine (·.decoded op)
          Act.perform ⟨setting.program, fun _ => setting.outside chain⟩ ⟨op, operands⟩ : Act Next)
          ⟨world, machine⟩) ∧
      ∀ after, Completes setting chain ⟨world, machine⟩ after →
        machine.Leads world.store ⟨op, operands⟩ after.machine) ∧
    (Instruction.readOperands? machine.code (machine.ip + 1) op.widths = none →
      ∃ fault after, Act.step ⟨setting.program, fun _ => setting.outside chain⟩ ⟨world, machine⟩ =
          .error (.fault fault) after ∧
        after.world.store = world.store ∧ after.world.globals = world.globals ∧
        after.machine.stack = machine.stack ∧ after.machine.sp = machine.sp) := by
  refine ⟨fun operands read => ⟨Act.step_decodes _ world found read, fun after completes => ?_⟩, ?_⟩
  · refine completes.leads ?_
    rw [Act.decode?_eq found, read]
    rfl
  · intro cut
    obtain ⟨fault, aborting, ip, opIp, ticks, failed⟩ := Act.step_starves _ world found cut
    exact ⟨fault, _, failed, rfl, rfl, rfl, rfl⟩

/-- A function about to be called with one argument. The code goes on behind the call. -/
def calling : Active where
  world := { store := { cells := #[
    .function { code := { arity := 1, instructions := #[Opcode.getLocal.byte, 0, Opcode.ret.byte, 1] } },
    .function { code := { instructions := #[Opcode.call.byte, 1, 0, 0, 0, Opcode.suspend.byte] } }] } }
  machine :=
    { stack := #[.function 0, .int 7, .undefined, .undefined]
      sp := 2
      calls := CallStack.empty.push { function := some 1, code :=
        { instructions := #[Opcode.call.byte, 1, 0, 0, 0, Opcode.suspend.byte] } }
      code := #[Opcode.call.byte, 1, 0, 0, 0, Opcode.suspend.byte]
      budget := 0 }

/-- The called function begins at its start, and its caller goes on behind the five bytes of the call. -/
theorem instruction_follows_widths_calling :
    calling.machine.code[calling.machine.ip]? = some Opcode.call.byte ∧
    ∃ after, Completes callingBackSetting [] calling after ∧ after.machine.ip = 0 ∧
      after.machine.frames.tail.map Frame.resume = [5] := by
  refine ⟨rfl, ?_⟩
  have ends : (complete? callingBackSetting 2 calling).isSome = true := by decide +kernel
  obtain ⟨after, found⟩ := Option.isSome_iff_exists.mp ends
  have completes := completes_of_complete? found
  have follows := @instruction_follows_widths callingBackSetting [] calling.world calling.machine
    .call rfl
  refine ⟨after, completes, ?_⟩
  cases (follows.1 [1, 0, 0, 0] rfl).2 after completes with
  | jumps jumps => cases jumps
  | enters _ _ _ ip _ calls =>
    rw [Machine.frames, calls]
    exact ⟨ip, rfl⟩
  | restarts _ entered reuses =>
    cases entered
    exact absurd reuses (by decide)
  | returns ret => cases ret
  | passes _ foreign => cases foreign rfl

end Execution

end ScriptMachine
