import ScriptMachine.Proofs.Halting
import ScriptMachine.Proofs.CallBinding
import ScriptMachine.Proofs.TailCalls
import ScriptMachine.Proofs.DiscardedResults

/-! The frames of a machine that runs a native-side call. The lowest one belongs to the code that makes
the call and lies there until the machine stops; the frame of the function lies right above it until
the function returns. -/

namespace ScriptMachine

theorem Execution.instructions_trampoline : Execution.trampoline.instructions =
    #[Opcode.call.byte, 0, 1, 0, 1, Opcode.suspend.byte] := by decide

/-- The frames of a machine whose lowest one waits behind its call of a function: the function's own
frame right above it, and any others above that. -/
inductive Hosts (function : Ref) : List Frame → Prop where
  | callee {frame bottom : Frame} (runs : frame.function = some function) (base : frame.base = 1)
      (code : bottom.code = Execution.trampoline) (resume : bottom.resume = 5) :
      Hosts function [frame, bottom]
  | above {frame : Frame} {frames : List Frame} (below : Hosts function frames) :
      Hosts function (frame :: frames)

namespace Hosts

variable {function : Ref} {frame changed : Frame} {frames callers : List Frame}

theorem not_nil : ¬Hosts function [] := by
  rintro ⟨⟩

theorem not_singleton : ¬Hosts function [frame] := by
  rintro (_ | below)
  exact not_nil below

theorem exists_two (hosts : Hosts function frames) :
    ∃ frame caller callers, frames = frame :: caller :: callers := by
  match frames with
  | [] => exact absurd hosts not_nil
  | [frame] => exact absurd hosts not_singleton
  | frame :: caller :: callers => exact ⟨frame, caller, callers, rfl⟩

theorem exists_callee (hosts : Hosts function frames) :
    ∃ upper frame bottom, frames = upper ++ [frame, bottom] ∧ frame.function = some function := by
  induction hosts with
  | callee runs => exact ⟨[], _, _, rfl, runs⟩
  | @above top _ _ ih =>
    obtain ⟨upper, frame, bottom, rfl, runs⟩ := ih
    exact ⟨top :: upper, frame, bottom, rfl, runs⟩

theorem changeTop (hosts : Hosts function (frame :: callers))
    (runs : changed.function = frame.function) (base : changed.base = frame.base) :
    Hosts function (changed :: callers) := by
  cases hosts with
  | callee known one code resume => exact .callee (runs.trans known) (base.trans one) code resume
  | above below => exact .above below

end Hosts

namespace Machine

/-- The machine is about to return: with the value on top of its stack, or with nothing. -/
inductive Returns (machine : Machine) : Value → Prop where
  | nothing (returns : machine.code[machine.ip]? = some Opcode.ret.byte)
      (empty : machine.code[machine.ip + 1]? = some 0) : Returns machine .undefined
  | value {flag : UInt8} {result : Value} {below : Nat}
      (returns : machine.code[machine.ip]? = some Opcode.ret.byte)
      (valued : machine.code[machine.ip + 1]? = some flag) (nonzero : flag ≠ 0)
      (used : machine.sp = below + 1) (found : machine.stack[below]? = some result) :
      Returns machine result

/-- The machine once the function that it was made for has returned. -/
structure Ended (machine : Machine) (result : Value) : Prop where
  code : machine.code = Execution.trampoline.instructions
  ip : machine.ip = 5
  slot : machine.stack[0]? = some result

/-- What an instruction makes of a machine that runs a function. -/
inductive Passes (function : Ref) (machine : Machine) : Next → Machine → Prop where
  | within {next : Next} {after : Machine} (goes : next ≠ .halt)
      (hosts : Hosts function after.frames) : Passes function machine next after
  | returned {result : Value} {after : Machine} (last : machine.frames.length = 2)
      (returns : machine.Returns result) (ended : after.Ended result) :
      Passes function machine .proceed after
  | suspended (stops : machine.code[machine.ip]? = some Opcode.suspend.byte) :
      Passes function machine .halt machine.fetched

variable {size : Nat} {machine : Machine} {result : Value}

theorem Returns.opcode (returns : machine.Returns result) :
    machine.code[machine.ip]? = some Opcode.ret.byte := by
  cases returns with
  | nothing returns => exact returns
  | value returns => exact returns

theorem Sound.fetched (sound : machine.Sound size) : machine.fetched.Sound size :=
  ⟨sound.slots, sound.used, sound.frames, sound.code⟩

/-- The value that the function's frame is left with stands in the lowest slot, and the code that made
the call goes on behind it. -/
theorem Ended.of_popFrame {function : Ref} {frame bottom : Frame} (sound : machine.Sound size)
    (hosts : Hosts function [frame, bottom]) (top : machine.frames = [frame, bottom])
    (result : Value) : (machine.popFrame result).Ended result := by
  cases hosts with
  | above below => exact absurd below Hosts.not_singleton
  | callee runs base code resume =>
    have left := machine.popFrame_eq result top
    refine ⟨?_, ?_, ?_⟩
    · rw [left, code]
    · rw [left, resume]
    · rw [getElem?_popFrame sound top result (by omega), if_pos (by omega)]

end Machine

namespace Act

variable {size : Nat} {machine : Machine} {function : Ref} {around : Surroundings} {world : World}
  {active after : Active} {next : Next}

theorem returns_of_returned {result : Value}
    (returns : machine.code[machine.ip]? = some Opcode.ret.byte)
    (handed : returned ⟨world, machine.fetched⟩ = .ok result after) : machine.Returns result := by
  obtain ⟨valued, middle, flagged, rest⟩ := bind_eq_ok handed
  cases found : machine.code[machine.ip + 1]? with
  | none =>
    have missing : readFlag ⟨world, machine.fetched⟩ =
        .error (.fault (.invalidInstruction machine.ip)) ⟨world, machine.fetched⟩ := by
      apply bind_of_error
      simp only [readByte, Machine.fetched, Instruction.readByte?, found, Option.map_none]
    rw [missing] at flagged
    cases flagged
  | some flag =>
    have present : machine.fetched.code[machine.fetched.ip]? = some flag := found
    rw [readFlag_eq world present] at flagged
    cases flagged
    by_cases zero : flag = 0
    · subst zero
      cases rest
      exact .nothing returns found
    · rw [decide_eq_true zero] at rest
      simp only [if_true, pop] at rest
      split at rest
      · cases rest
      next below used =>
        split at rest
        · cases rest
        next value top =>
          cases rest
          exact .value returns found zero used top

theorem execute_ret_eq {result : Value} (returns : machine.Returns result)
    (sound : machine.Sound size) {frame caller : Frame} {callers : List Frame}
    (top : machine.frames = frame :: caller :: callers) (around : Surroundings) (world : World) :
    ∃ popped : Machine, popped.Sound size ∧ popped.frames = machine.frames ∧
      execute around .ret ⟨world, machine.fetched⟩ =
        .ok .proceed ⟨world, popped.popFrame result⟩ := by
  have fetched := fetch_eq world returns.opcode
  cases returns with
  | nothing returns empty =>
    obtain ⟨popped, kept, frames, -, done⟩ :=
      fetch_execute_emptyRet around sound top world returns empty
    rw [bind_of_ok fetched] at done
    exact ⟨popped, kept, frames.trans top.symm, done⟩
  | value returns valued nonzero used found =>
    obtain ⟨popped, kept, frames, -, done⟩ :=
      fetch_execute_return around sound top world used found returns valued nonzero
    rw [bind_of_ok fetched] at done
    exact ⟨popped, kept, frames.trans top.symm, done⟩

theorem changeUnless_eq_ok {stop? : Machine → Option Stop} {change : Machine → Machine}
    (done : changeUnless stop? change active = .ok () after) :
    after = ⟨active.world, change active.machine⟩ := by
  unfold changeUnless at done
  dsimp only at done
  split at done
  · cases done
  · cases done
    rfl

theorem hosts_enter {limits : Limits} {ref : Ref} {arguments : Array Value}
    {keywords : Table Value} {start : Nat}
    (entered : enter limits ref arguments keywords start active = .ok () after)
    (hosts : Hosts function active.machine.frames) :
    Hosts function after.machine.frames := by
  obtain ⟨callee, _, read, rest⟩ := bind_eq_ok entered
  cases read
  obtain ⟨parameters, bound, binds, rest⟩ := bind_eq_ok rest
  obtain ⟨reuses, _, looked, rest⟩ := bind_eq_ok rest
  cases looked
  have same : bound.machine = active.machine := by
    simp only [onStore] at binds
    split at binds
    · cases binds
      rfl
    · cases binds
  rw [← same] at hosts
  obtain ⟨frame, caller, callers, top⟩ := hosts.exists_two
  split at rest
  · unfold reenterFrame at rest
    rw [changeUnless_eq_ok rest]
    dsimp only
    rw [Machine.frames_restartFrame _ _ _ _ _ top]
    exact (top ▸ hosts).changeTop rfl rfl
  · unfold enterFrame at rest
    rw [changeUnless_eq_ok rest]
    dsimp only
    rw [Machine.frames_pushFrame _ _ _ top]
    exact .above ((top ▸ hosts).changeTop rfl rfl)

theorem hosts_call (called : call around active = .ok next after)
    (hosts : Hosts function active.machine.frames) : Hosts function after.machine.frames := by
  obtain ⟨site, found, read, rest⟩ := bind_eq_ok called
  obtain ⟨ip, rfl⟩ := peeks_callSite _ _ _ read
  obtain ⟨target, ready, resolved, rest⟩ := bind_eq_ok rest
  obtain ⟨ip, rfl⟩ := peeks_resolve _ _ _ _ _ resolved
  cases target with
  | native callee context fromStack =>
    cases rest
    exact hosts
  | function ref arguments =>
    obtain ⟨_, last, entered, done⟩ := bind_eq_ok rest
    cases done
    exact hosts_enter entered hosts

/-- One instruction of the function or of something that it has called: the function's frame stays
where it is, unless it is the one that returns. -/
theorem passes_step (sound : machine.Sound size) (hosts : Hosts function machine.frames)
    (stepped : step around ⟨world, machine⟩ = .ok next after) :
    machine.Passes function next after.machine := by
  obtain ⟨op, found, executed⟩ := step_eq_ok stepped
  by_cases returns : op = .ret
  · subst returns
    obtain ⟨frame, caller, callers, top⟩ := hosts.exists_two
    obtain ⟨result, handed, handing, -⟩ := bind_eq_ok executed
    have returning := returns_of_returned found handing
    obtain ⟨popped, kept, frames, done⟩ := execute_ret_eq returning sound top around world
    cases executed.symm.trans done
    rw [top] at frames hosts
    cases callers with
    | nil => exact .returned (by rw [top]; rfl) returning (.of_popFrame kept hosts frames result)
    | cons below rest =>
      cases hosts with
      | above hosts =>
        refine .within (by simp) ?_
        rw [Machine.frames_popFrame result frames]
        exact hosts
  · by_cases suspends : op = .suspend
    · subst suspends
      cases executed
      exact .suspended found
    · have goes : next ≠ .halt := by
        rintro rfl
        cases goes_execute around suspends returns _ _ _ executed
      refine .within goes ?_
      by_cases calls : op = .call
      · subst calls
        exact hosts_call executed hosts
      · have kept := (orderly_execute around calls returns ⟨world, machine.fetched⟩).kept
        rw [executed] at kept
        have same : after.machine.frames = machine.frames :=
          congrArg (fun setup : Setup => setup.calls.frames) kept
        rw [same]
        exact hosts

/-- An instruction that is completed when its answer comes leaves all frames where they are. -/
theorem hosts_resume {limits : Limits} {pending : Pending} {answer : Except Fault Value}
    (resumed : resume limits pending answer active = .ok next after)
    (hosts : Hosts function active.machine.frames) :
    next ≠ .halt ∧ Hosts function after.machine.frames := by
  have kept := (orderly_resume limits pending answer active).kept
  rw [resumed] at kept
  have same : after.machine.frames = active.machine.frames :=
    congrArg (fun setup : Setup => setup.calls.frames) kept
  refine ⟨?_, by rw [same]; exact hosts⟩
  rintro rfl
  exact nears_resume resumed

theorem ended_step {result : Value} (ended : machine.Ended result)
    (stepped : step around ⟨world, machine⟩ = .ok next after) :
    next = .halt ∧ after = ⟨world, machine.fetched⟩ := by
  obtain ⟨op, found, executed⟩ := step_eq_ok stepped
  have stops : machine.code[machine.ip]? = some Opcode.suspend.byte := by
    rw [ended.code, ended.ip]
    decide
  obtain rfl : op = .suspend := Opcode.eq_of_byte_eq (Option.some.inj (found.symm.trans stops))
  cases executed
  exact ⟨rfl, rfl⟩

end Act

end ScriptMachine
