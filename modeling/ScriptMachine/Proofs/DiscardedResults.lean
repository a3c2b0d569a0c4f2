import ScriptMachine.Proofs.SelfCalls
import ScriptMachine.Session
import Mathlib

/-! A function that calls itself, drops the result and returns without a value has its frame taken
over as well. The instructions that would have dropped the result are then never executed, so the
caller of that frame is handed the result, where the ordinary call would have handed on nothing. -/

namespace ScriptMachine

namespace Machine

theorem Within.refl {size : Nat} {machine : Machine} (sound : machine.Sound size) :
    machine.Within size machine := by
  obtain ⟨frame, callers, top⟩ := sound.frames.exists_running
  exact ⟨sound, ⟨frame, callers, frame.resume, top, top⟩, fun _ _ _ _ _ => rfl⟩

end Machine

namespace Act

variable {size : Nat} {machine : Machine} {frame caller : Frame} {callers : List Frame}

def instructions (around : Surroundings) : Nat → Act Next
  | 0 => return .proceed
  | count + 1 => do
    match ← fetch >>= execute around with
    | .proceed => instructions around count
    | other => return other

theorem instructions_succ {around : Surroundings} {count : Nat} {active after : Active}
    (first : (fetch >>= execute around) active = .ok .proceed after) :
    instructions around (count + 1) active = instructions around count after := by
  show EStateM.bind (fetch >>= execute around) _ active = _
  simp only [EStateM.bind, first]

/-- The code at an offset returns without a value, possibly after dropping one. The number is that
of the instructions it takes. -/
inductive Discards (code : Array UInt8) (ip : Nat) : Nat → Prop where
  | ret (returns : code[ip]? = some Opcode.ret.byte) (empty : code[ip + 1]? = some 0) :
      Discards code ip 1
  | popRet (drops : code[ip]? = some Opcode.pop.byte)
      (returns : code[ip + 1]? = some Opcode.ret.byte) (empty : code[ip + 2]? = some 0) :
      Discards code ip 2

theorem Discards.followedByReturn {count : Nat}
    (discards : Discards machine.code machine.ip count) : machine.followedByReturn = true := by
  cases discards with
  | ret returns =>
    have next : Machine.followedByReturn.operation machine machine.ip = some .ret := by
      simp only [Machine.followedByReturn.operation, returns]
      rfl
    simp only [Machine.followedByReturn, next]
  | popRet drops returns =>
    have next : Machine.followedByReturn.operation machine machine.ip = some .pop := by
      simp only [Machine.followedByReturn.operation, drops]
      rfl
    have last : Machine.followedByReturn.operation machine (machine.ip + 1) = some .ret := by
      simp only [Machine.followedByReturn.operation, returns]
      rfl
    simp only [Machine.followedByReturn, next, last]
    rfl

theorem fetch_execute_emptyRet (around : Surroundings) (sound : machine.Sound size)
    (top : machine.frames = frame :: caller :: callers) (world : World)
    (returns : machine.code[machine.ip]? = some Opcode.ret.byte)
    (empty : machine.code[machine.ip + 1]? = some 0) :
    ∃ popped : Machine, popped.Sound size ∧ popped.frames = frame :: caller :: callers ∧
      popped.stack = machine.stack ∧
      (fetch >>= execute around) ⟨world, machine⟩ =
        .ok .proceed ⟨world, popped.popFrame .undefined⟩ := by
  let popped : Machine := { machine with
    ip := machine.ip + 2
    opIp := machine.ip
    ticks := machine.ticks + 1 }
  have kept : popped.Sound size := ⟨sound.slots, sound.used, sound.frames, sound.code⟩
  have handed : returned ⟨world, { machine with
      ip := machine.ip + 1, opIp := machine.ip, ticks := machine.ticks + 1 }⟩ =
        .ok .undefined ⟨world, popped⟩ := by
    have flagged := @readFlag_eq { machine with
      ip := machine.ip + 1, opIp := machine.ip, ticks := machine.ticks + 1 } world 0 empty
    simp only [returned, Bind.bind, EStateM.bind, flagged]
    rfl
  exact ⟨popped, kept, top, rfl, fetch_execute_ret around world returns handed kept top⟩

theorem fetch_execute_pop (around : Surroundings) (sound : machine.Sound size) (world : World)
    {value : Value} {below : Nat} (used : machine.sp = below + 1)
    (found : machine.stack[below]? = some value)
    (drops : machine.code[machine.ip]? = some Opcode.pop.byte) :
    ∃ dropped : Machine, dropped.Sound size ∧ dropped.frames = machine.frames ∧
      dropped.code = machine.code ∧ dropped.ip = machine.ip + 1 ∧
      dropped.stack = machine.stack.setIfInBounds below .undefined ∧
      (fetch >>= execute around) ⟨world, machine⟩ = .ok .proceed ⟨world, dropped⟩ := by
  let dropped : Machine := { machine with
    stack := machine.stack.setIfInBounds below .undefined
    sp := below
    ip := machine.ip + 1
    opIp := machine.ip
    ticks := machine.ticks + 1 }
  have kept : dropped.Sound size := by
    refine ⟨by simpa [dropped] using sound.slots, ?_, sound.frames, sound.code⟩
    exact Nat.le_trans (by simp only [dropped]; omega) sound.used
  refine ⟨dropped, kept, rfl, rfl, rfl, rfl, ?_⟩
  rw [bind_of_ok (fetch_eq world drops)]
  exact execute_pop around world used found

/-- A call of the running function by itself, whose result the code behind it discards. -/
structure DiscardedCall (around : Surroundings) (size : Nat) (active : Active) extends
    SelfCall around size active where
  count : Nat
  discards : Discards active.machine.code ready.machine.ip count

namespace DiscardedCall

variable {around : Surroundings} {active : Active} (call : DiscardedCall around size active)

theorem followed : call.ready.machine.followedByReturn = true := by
  have discards := call.discards
  rw [← call.code_ready] at discards
  exact discards.followedByReturn

theorem sound_reused : call.reused.Sound size :=
  (call.sound_ready call.sound).restart _ _ call.restartStop?_ready

theorem instructions_returned {result : Value} {back : Machine}
    (came : call.Returned result back) (world : World) :
    ∃ popped : Machine, popped.Sound size ∧
      popped.frames =
        { call.frame with resume := call.ready.machine.ip } :: call.caller :: call.callers ∧
      (∀ slot < call.frame.base, call.reused.stack[slot]? = popped.stack[slot]?) ∧
      instructions around call.count ⟨world, back⟩ =
        .ok .proceed ⟨world, popped.popFrame .undefined⟩ := by
  have discards := call.discards
  rw [← came.code, ← came.ip] at discards
  generalize call.count = count at discards ⊢
  cases discards with
  | ret returns empty =>
    obtain ⟨popped, sound, top, stack, left⟩ :=
      fetch_execute_emptyRet around came.sound came.frames world returns empty
    refine ⟨popped, sound, top, ?_, instructions_succ left⟩
    rw [stack]
    exact came.below
  | popRet drops returns empty =>
    have own := call.own
    have used : back.sp = call.site.start - 1 + 1 :=
      came.sp.trans (Nat.sub_add_cancel (call.start_pos call.sound)).symm
    obtain ⟨dropped, kept, frames, code, ip, slots, first⟩ :=
      fetch_execute_pop around came.sound world used came.value drops
    obtain ⟨popped, sound, top, stack, left⟩ :=
      fetch_execute_emptyRet around kept (frames.trans came.frames) world
        (by rw [code, ip]; exact returns) (by rw [code, ip]; exact empty)
    refine ⟨popped, sound, top, ?_, (instructions_succ first).trans (instructions_succ left)⟩
    intro slot low
    rw [stack, slots, Array.getElem?_setIfInBounds, if_neg (by omega)]
    exact came.below slot low

end DiscardedCall

/-- A function that calls itself and discards the result does not do what the ordinary call followed
by the discarding does. Its frame is taken over, and whatever the new activation returns is handed to
the caller of that frame, who would have been handed nothing; otherwise both agree. The same is true
after any number of further calls in the frame. -/
theorem discarded_result_is_delivered {around : Surroundings} {active : Active}
    (call : DiscardedCall around size active) :
    Act.call around active = .ok .proceed ⟨call.world, call.reused⟩ ∧
    (∀ pushed, call.push ⟨call.world, call.ready.machine⟩ = .ok () ⟨call.world, pushed⟩ →
      ∀ late later world result, call.reused.Within size late → pushed.Within size later →
        ∃ left right, leave result ⟨world, late⟩ = .ok .proceed ⟨world, left⟩ ∧
          (leave result >>= fun _ => instructions around call.count) ⟨world, later⟩ =
            .ok .proceed ⟨world, right⟩ ∧
          left.stack[call.frame.base - 1]? = some result ∧
          right.stack[call.frame.base - 1]? = some .undefined ∧
          (left.Alike right ↔ result = .undefined)) ∧
    ∀ count last late world result, SelfCalls around size ⟨call.world, call.reused⟩ count last →
      last.machine.Within size late →
        ∃ left, leave result ⟨world, late⟩ = .ok .proceed ⟨world, left⟩ ∧
          left.frames = call.caller :: call.callers ∧ left.sp = call.frame.base ∧
          left.stack[call.frame.base - 1]? = some result := by
  refine ⟨call.call_reuses call.followed, ?_, ?_⟩
  · intro pushed entered late later world result inside above
    obtain ⟨same, -⟩ := call.push_eq entered
    cases same
    obtain ⟨left, handed⟩ := call.leave_reused inside world result
    obtain ⟨back, first, came⟩ := call.leave_pushed above world result
    obtain ⟨popped, sound, top, kept, rest⟩ := call.instructions_returned came world
    have one : 1 ≤ call.frame.base := (top ▸ sound.frames).above.1
    have nothing : (popped.popFrame .undefined).stack[call.frame.base - 1]? = some .undefined := by
      rw [Machine.getElem?_popFrame sound top .undefined (by simp only; omega), if_pos rfl]
    refine ⟨late.popFrame result, popped.popFrame .undefined, left, ?_, handed, nothing, ?_, ?_⟩
    · show EStateM.bind (leave result) _ _ = _
      simp only [EStateM.bind, first]
      exact rest
    · intro alike
      have used : call.frame.base - 1 < (late.popFrame result).sp := by
        rw [alike.sp, popped.popFrame_eq .undefined top]
        simp only
        omega
      have slots := alike.slots _ used
      rw [handed, nothing] at slots
      exact Option.some.inj slots
    · rintro rfl
      exact call.popFrame_alike inside sound top kept .undefined
  · intro count last late world result calls inside
    obtain ⟨running, top, base, -, -⟩ := calls.keeps call.frames_reused call.sp_reused
    obtain ⟨latest, lateTop, lateBase, -⟩ := inside.running top
    have same : latest.base = call.frame.base := lateBase.trans base
    have one : 1 ≤ latest.base := (lateTop ▸ inside.sound.frames).above.1
    refine ⟨late.popFrame result, leave_eq inside.sound lateTop world result,
      Machine.frames_popFrame result lateTop, ?_, ?_⟩
    · rw [late.popFrame_eq result lateTop]
      exact same
    · rw [← same, Machine.getElem?_popFrame inside.sound lateTop result (by omega), if_pos rfl]

/-- A function of one parameter about to call itself with the number 8, drop the result and return
without a value. -/
def discarding : Active :=
  let code : FunctionCode :=
    { instructions :=
        #[Opcode.call.byte, 1, 0, 0, 0, Opcode.pop.byte, Opcode.ret.byte, 0]
      arity := 1 }
  { world := { store := { cells := #[.function { code }] } }
    machine :=
      { stack := #[.function 0, .int 9, .function 0, .int 8, .undefined]
        sp := 4
        calls := (CallStack.empty.push { function := some 1, code := {} }).push
          { function := some 0, code, base := 1, arguments := #[.int 9] }
        code := code.instructions
        ip := 1
        budget := 0 } }

def discardingCall : DiscardedCall ⟨{ main := 1 }, fun _ => []⟩ 5 discarding where
  site := ⟨3, .function 0, #[.int 8], {}⟩
  found := ⟨discarding.world, { discarding.machine with ip := 5 }⟩
  read := by cbv
  ref := 0
  arguments := #[.int 8]
  ready := ⟨discarding.world, { discarding.machine with ip := 5 }⟩
  resolved := rfl
  parameters := #[.int 8]
  store := discarding.world.store
  bound := rfl
  sound := ⟨rfl, by decide, .call (by decide) (by decide) (.bottom rfl (by decide)), by
    intro frame callers same
    cases same
    rfl⟩
  frame := { function := some 0, code := (discarding.world.store.function 0).code, base := 1
             arguments := #[.int 9] }
  caller := { function := some 1, code := {} }
  callers := []
  running := rfl
  function := rfl
  code := rfl
  own := by decide
  count := 2
  discards := .popRet rfl rfl rfl

/-- The new activation returns 7: taken over, the frame hands 7 to its caller; with a frame of its
own, the call hands on nothing. -/
theorem discarded_result_is_delivered_seven :
    ∃ pushed left right,
      discardingCall.push ⟨discardingCall.world, discardingCall.ready.machine⟩ =
        .ok () ⟨discardingCall.world, pushed⟩ ∧
      leave (.int 7) ⟨discardingCall.world, discardingCall.reused⟩ =
        .ok .proceed ⟨discardingCall.world, left⟩ ∧
      (leave (.int 7) >>= fun _ => instructions ⟨{ main := 1 }, fun _ => []⟩ 2)
        ⟨discardingCall.world, pushed⟩ = .ok .proceed ⟨discardingCall.world, right⟩ ∧
      left.stack[0]? = some (.int 7) ∧ right.stack[0]? = some .undefined := by
  have allowed : discardingCall.ready.machine.pushStop? {} discardingCall.newFrame
      discardingCall.parameters = none := rfl
  have sound : discardingCall.pushed.Sound 5 :=
    (discardingCall.sound_ready discardingCall.sound).enter (by decide) allowed
  obtain ⟨-, differs, -⟩ := discarded_result_is_delivered discardingCall
  obtain ⟨left, right, first, second, handed, nothing, -⟩ :=
    differs discardingCall.pushed rfl _ _ discardingCall.world (.int 7)
      (.refl discardingCall.sound_reused) (.refl sound)
  exact ⟨discardingCall.pushed, left, right, rfl, first, second, handed, nothing⟩

end Act

/-- Two functions that, given a true argument, call themselves with a false one and discard the
result, one with a drop before its return and one without. Given a false argument they return 7. The
main function keeps what they hand on in its globals. -/
def discardingSession : Session where
  program :=
    { main := 0
      constants := #[.function 1, .function 2, .int 7]
      limits := { stackSize := 8, globalsSize := 2 } }
  host := .standard
  world :=
    { store := { cells := #[
        .function { code := { instructions := assemble [
          ⟨.constant, [0]⟩, ⟨.pushTrue, []⟩, ⟨.call, [1, 0, 0, 0]⟩, ⟨.setGlobal, [0]⟩,
          ⟨.constant, [1]⟩, ⟨.pushTrue, []⟩, ⟨.call, [1, 0, 0, 0]⟩, ⟨.setGlobal, [1]⟩,
          ⟨.suspend, []⟩] } },
        .function { code := { arity := 1, instructions := assemble [
          ⟨.getLocal, [0]⟩, ⟨.jumpFalsy, [15]⟩, ⟨.callee, []⟩, ⟨.pushFalse, []⟩,
          ⟨.call, [1, 0, 0, 0]⟩, ⟨.pop, []⟩, ⟨.ret, [0]⟩, ⟨.constant, [2]⟩, ⟨.ret, [1]⟩] } },
        .function { code := { arity := 1, instructions := assemble [
          ⟨.getLocal, [0]⟩, ⟨.jumpFalsy, [14]⟩, ⟨.callee, []⟩, ⟨.pushFalse, []⟩,
          ⟨.call, [1, 0, 0, 0]⟩, ⟨.ret, [0]⟩, ⟨.constant, [2]⟩, ⟨.ret, [1]⟩] } }] }
      globals := #[.undefined, .undefined] }
  machine := .blank { stackSize := 8 } {}

/-- Both calls hand 7 to the main function, though their results were discarded. -/
theorem discarded_result_is_delivered_twice :
    (match Session.run 40 .unlimited discardingSession with
      | .ok .completed after => some (after.world.globals.toList.map Value.int?)
      | _ => none) = some [some 7, some 7] := by
  decide +kernel

end ScriptMachine
