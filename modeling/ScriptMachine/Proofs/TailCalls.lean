import ScriptMachine.Proofs.SelfCalls
import Mathlib

/-! A function that calls itself and returns at once takes over the running frame. That agrees with
the ordinary call followed by the return, and any number of such calls needs one frame. -/

namespace ScriptMachine

namespace Act

variable {size : Nat} {machine : Machine} {frame caller : Frame} {callers : List Frame}

theorem returned_eq (world : World) {result : Value} {below : Nat} (used : machine.sp = below + 1)
    (value : machine.stack[below]? = some result) {flag : UInt8}
    (valued : machine.code[machine.ip]? = some flag) (nonzero : flag ≠ 0) :
    returned ⟨world, machine⟩ = .ok result ⟨world, { machine with
      stack := machine.stack.setIfInBounds below .undefined, sp := below, ip := machine.ip + 1 }⟩ := by
  have flagged := readFlag_eq world valued
  rw [decide_eq_true nonzero] at flagged
  simp only [returned, Bind.bind, EStateM.bind, flagged, if_true, pop, used, value]

/-- A return with a value, executed at the place where the code goes on, leaves the running frame
with the value on top of the stack. -/
theorem fetch_execute_return (around : Surroundings) (sound : machine.Sound size)
    (top : machine.frames = frame :: caller :: callers) (world : World) {result : Value}
    {below : Nat} (used : machine.sp = below + 1) (value : machine.stack[below]? = some result)
    {flag : UInt8} (returns : machine.code[machine.ip]? = some Opcode.ret.byte)
    (valued : machine.code[machine.ip + 1]? = some flag) (nonzero : flag ≠ 0) :
    ∃ popped : Machine, popped.Sound size ∧ popped.frames = frame :: caller :: callers ∧
      popped.stack = machine.stack.setIfInBounds below .undefined ∧
      (fetch >>= execute around) ⟨world, machine⟩ = .ok .proceed ⟨world, popped.popFrame result⟩ := by
  let popped : Machine := { machine with
    stack := machine.stack.setIfInBounds below .undefined
    sp := below
    ip := machine.ip + 2
    opIp := machine.ip
    ticks := machine.ticks + 1 }
  have kept : popped.Sound size := by
    refine ⟨by simpa [popped] using sound.slots, ?_, sound.frames, sound.code⟩
    exact Nat.le_trans (by simp only [popped]; omega) sound.used
  have handed : returned ⟨world, { machine with
      ip := machine.ip + 1, opIp := machine.ip, ticks := machine.ticks + 1 }⟩ = .ok result ⟨world, popped⟩ :=
    returned_eq world used value valued nonzero
  exact ⟨popped, kept, top, rfl, fetch_execute_ret around world returns handed kept top⟩

/-- A call that resolves to the function of the running frame, which is not the lowest one, with its
callee in the frame's own part of the stack, and a return of its result right after it. -/
structure TailCall (around : Surroundings) (size : Nat) (active : Active) where
  site : CallSite
  found : Active
  read : callSite active = .ok site found
  ref : Ref
  arguments : Array Value
  ready : Active
  resolved : resolve around site found = .ok (.function ref arguments) ready
  sound : active.machine.Sound size
  frame : Frame
  caller : Frame
  callers : List Frame
  running : active.machine.frames = frame :: caller :: callers
  function : frame.function = some ref
  code : frame.code = (active.world.store.function ref).code
  parameters : Array Value
  store : Store
  bound : StoreM.bindArguments frame.code arguments site.keywords active.world.store =
    .ok parameters store
  own : frame.base ≤ site.start - 1
  flag : UInt8
  returns : active.machine.code[ready.machine.ip]? = some Opcode.ret.byte
  valued : active.machine.code[ready.machine.ip + 1]? = some flag
  nonzero : flag ≠ 0

namespace TailCall

variable {around : Surroundings} {active : Active} (tail : TailCall around size active)

def selfCall : SelfCall around size active where
  site := tail.site
  found := tail.found
  read := tail.read
  ref := tail.ref
  arguments := tail.arguments
  ready := tail.ready
  resolved := tail.resolved
  parameters := tail.parameters
  store := tail.store
  bound := tail.code ▸ tail.bound
  sound := tail.sound
  frame := tail.frame
  caller := tail.caller
  callers := tail.callers
  running := tail.running
  function := tail.function
  code := tail.code
  own := tail.own

theorem followed : tail.ready.machine.followedByReturn = true := by
  have next : Machine.followedByReturn.operation tail.ready.machine tail.ready.machine.ip =
      some .ret := by
    have code : tail.ready.machine.code = active.machine.code := tail.selfCall.code_ready
    simp only [Machine.followedByReturn.operation, code, tail.returns]
    rfl
  simp only [Machine.followedByReturn, next]

theorem sound_ready : tail.ready.machine.Sound size := tail.selfCall.sound_ready tail.sound

theorem frames_ready : tail.ready.machine.frames = tail.frame :: tail.caller :: tail.callers :=
  tail.selfCall.top_ready

def reused : Machine :=
  tail.ready.machine.restartFrame tail.frame.code.frameSize tail.parameters tail.arguments
    tail.site.keywords

def world : World := { active.world with store := tail.store }

def push : Act Unit :=
  enterFrame around.program.limits tail.ref (active.world.store.function tail.ref) tail.parameters
    tail.arguments tail.site.keywords tail.site.start

theorem call_eq : call around active = .ok .proceed ⟨tail.world, tail.reused⟩ :=
  tail.selfCall.call_reuses tail.followed

theorem frames_reused : tail.reused.frames =
    { tail.frame with arguments := tail.arguments, keywords := tail.site.keywords } ::
      tail.caller :: tail.callers :=
  tail.selfCall.frames_reused

theorem sp_reused : tail.reused.sp = tail.frame.base + tail.frame.code.frameSize :=
  tail.selfCall.sp_reused

theorem getElem?_reused {index : Nat} (inside : index < tail.frame.code.frameSize) :
    tail.reused.stack[tail.frame.base + index]? = some (tail.parameters[index]?.getD .undefined) :=
  tail.selfCall.getElem?_reused inside

def newFrame : Frame :=
  (active.world.store.function tail.ref).frame tail.ref tail.arguments tail.site.keywords
    tail.site.start

/-- Where the ordinary call is possible, its frame is new and has all its slots. -/
theorem push_eq {world : World} {after : Active}
    (pushed : tail.push ⟨world, tail.ready.machine⟩ = .ok () after) :
    after = ⟨world, tail.ready.machine.pushFrame tail.newFrame tail.parameters⟩ ∧
      tail.site.start + tail.frame.code.frameSize ≤ tail.ready.machine.stack.size :=
  tail.selfCall.push_eq pushed

theorem getElem?_pushed (fits : tail.site.start + tail.frame.code.frameSize ≤ tail.ready.machine.stack.size)
    {index : Nat} (inside : index < tail.frame.code.frameSize) :
    (tail.ready.machine.pushFrame tail.newFrame tail.parameters).stack[tail.site.start + index]? =
      some (tail.parameters[index]?.getD .undefined) :=
  tail.selfCall.getElem?_pushed fits inside

/-- Leaving the frame that was taken over is leaving the new frame and then, by the return that
waits there, the frame below. -/
theorem leaves_alike {late later : Machine} (inside : tail.reused.Within size late)
    (above : (tail.ready.machine.pushFrame tail.newFrame tail.parameters).Within size later)
    (world : World) (result : Value) :
    ∃ left right, leave result ⟨world, late⟩ = .ok .proceed ⟨world, left⟩ ∧
      (leave result >>= fun _ => fetch >>= execute around) ⟨world, later⟩ =
        .ok .proceed ⟨world, right⟩ ∧ left.Alike right := by
  obtain ⟨back, first, came⟩ := tail.selfCall.leave_pushed above world result
  have one : tail.selfCall.site.start = tail.selfCall.site.start - 1 + 1 :=
    (Nat.sub_add_cancel (tail.selfCall.start_pos tail.sound)).symm
  have returns : back.code[back.ip]? = some Opcode.ret.byte := by
    rw [came.code, came.ip]
    exact tail.returns
  have valued : back.code[back.ip + 1]? = some tail.flag := by
    rw [came.code, came.ip]
    exact tail.valued
  obtain ⟨popped, sound, top, stack, second⟩ :=
    fetch_execute_return around came.sound came.frames world (came.sp.trans one) came.value returns
      valued tail.nonzero
  refine ⟨late.popFrame result, popped.popFrame result,
    (tail.selfCall.leave_reused inside world result).1, ?_, ?_⟩
  · show EStateM.bind (leave result) _ _ = _
    simp only [EStateM.bind, first]
    exact second
  · refine tail.selfCall.popFrame_alike inside sound top ?_ result
    intro slot low
    have own : tail.frame.base ≤ tail.selfCall.site.start - 1 := tail.own
    have under : slot < tail.frame.base := low
    rw [stack, Array.getElem?_setIfInBounds, if_neg (by omega)]
    exact came.below slot low

end TailCall

/-- Tail calls one after the other, each made by the code of the frame that the one before took
over. -/
inductive TailCalls (around : Surroundings) (size : Nat) (start : Active) : Nat → Active → Prop where
  | none : TailCalls around size start 0 start
  | again {count : Nat} {entered working after : Active}
      (earlier : TailCalls around size start count entered)
      (body : entered.machine.Within size working.machine) (tail : TailCall around size working)
      (called : call around working = .ok .proceed after) :
      TailCalls around size start (count + 1) after

theorem TailCalls.selfCalls {around : Surroundings} {start last : Active} {count : Nat}
    (calls : TailCalls around size start count last) : SelfCalls around size start count last := by
  induction calls with
  | none => exact .none
  | again earlier body tail called ih => exact .again ih body tail.selfCall tail.followed called

/-- However many tail calls follow a frame's entry, they run in its place and with its slots. -/
theorem TailCalls.keeps {around : Surroundings} {start last : Active} {count : Nat}
    (calls : TailCalls around size start count last) (top : start.machine.frames = frame :: callers)
    (used : start.machine.sp = frame.base + frame.code.frameSize) :
    ∃ running, last.machine.frames = running :: callers ∧ running.base = frame.base ∧
      running.code = frame.code ∧ last.machine.sp = frame.base + frame.code.frameSize :=
  calls.selfCalls.keeps top used

/-- A function that calls itself and returns at once does what the ordinary call followed by the
return does. The call keeps the frames and the base, and finds in its slots what a new frame would
have; leaving it leaves nothing to do that the return would have done; and any number of such calls
uses the frames and slots of one. -/
theorem tail_call_agrees {around : Surroundings} {active : Active}
    (tail : TailCall around size active) :
    call around active = .ok .proceed ⟨tail.world, tail.reused⟩ ∧
    tail.reused.frames =
      { tail.frame with arguments := tail.arguments, keywords := tail.site.keywords } ::
        tail.caller :: tail.callers ∧
    tail.reused.ip = 0 ∧
    tail.reused.sp = tail.frame.base + tail.frame.code.frameSize ∧
    (∀ index < tail.frame.code.frameSize,
      tail.reused.stack[tail.frame.base + index]? =
        some (tail.parameters[index]?.getD .undefined)) ∧
    (∀ pushed, tail.push ⟨tail.world, tail.ready.machine⟩ = .ok () ⟨tail.world, pushed⟩ →
      tail.reused.code = pushed.code ∧
      (∃ fresh, pushed.frames =
          fresh :: { tail.frame with resume := tail.ready.machine.ip } :: tail.caller :: tail.callers ∧
        fresh.base = tail.site.start ∧ fresh.arguments = tail.arguments ∧
        fresh.keywords = tail.site.keywords) ∧
      (∀ index < tail.frame.code.frameSize,
        tail.reused.stack[tail.frame.base + index]? = pushed.stack[tail.site.start + index]?) ∧
      ∀ late later world result, tail.reused.Within size late → pushed.Within size later →
        ∃ left right, leave result ⟨world, late⟩ = .ok .proceed ⟨world, left⟩ ∧
          (leave result >>= fun _ => fetch >>= execute around) ⟨world, later⟩ =
            .ok .proceed ⟨world, right⟩ ∧ left.Alike right) ∧
    ∀ count last, TailCalls around size ⟨tail.world, tail.reused⟩ count last →
      last.machine.frames.length = active.machine.frames.length ∧
      last.machine.sp = tail.reused.sp := by
  refine ⟨tail.call_eq, tail.frames_reused, rfl, tail.sp_reused,
    fun index inside => tail.getElem?_reused inside, ?_, ?_⟩
  · intro pushed entered
    obtain ⟨same, fits⟩ := tail.push_eq entered
    cases same
    refine ⟨?_, ⟨tail.newFrame, ?_, rfl, rfl, rfl⟩, ?_, ?_⟩
    · have running : tail.reused.code = tail.frame.code.instructions :=
        tail.sound_ready.code _ _ tail.frames_ready
      rw [running, tail.code]
      rfl
    · exact tail.ready.machine.frames_pushFrame tail.parameters tail.newFrame tail.frames_ready
    · intro index inside
      rw [tail.getElem?_reused inside, tail.getElem?_pushed fits inside]
    · intro late later world result inside above
      exact tail.leaves_alike inside above world result
  · intro count last calls
    obtain ⟨running, top, -, -, used⟩ := calls.keeps tail.frames_reused tail.sp_reused
    refine ⟨?_, used.trans tail.sp_reused.symm⟩
    rw [top, tail.running]
    rfl

/-- A function of one parameter and two slots about to call itself with the number 7. -/
def looping : Active :=
  let code : FunctionCode :=
    { instructions := #[Opcode.call.byte, 1, 0, 0, 0, Opcode.ret.byte, 1], locals := 2, arity := 1 }
  { world := { store := { cells := #[.function { code }] } }
    machine :=
      { stack := #[.function 0, .int 8, .bool true, .function 0, .int 7, .undefined, .undefined]
        sp := 5
        calls := (CallStack.empty.push { function := some 1, code := {} }).push
          { function := some 0, code, base := 1, arguments := #[.int 8] }
        code := code.instructions
        ip := 1
        budget := 0 } }

def loopingTail : TailCall ⟨{ main := 1 }, fun _ => []⟩ 7 looping where
  site := ⟨4, .function 0, #[.int 7], {}⟩
  found := ⟨looping.world, { looping.machine with ip := 5 }⟩
  read := by cbv
  ref := 0
  arguments := #[.int 7]
  ready := ⟨looping.world, { looping.machine with ip := 5 }⟩
  resolved := rfl
  sound := ⟨rfl, by decide, .call (by decide) (by decide) (.bottom rfl (by decide)), by
    intro frame callers same
    cases same
    rfl⟩
  frame := { function := some 0, code := (looping.world.store.function 0).code, base := 1
             arguments := #[.int 8] }
  caller := { function := some 1, code := {} }
  callers := []
  running := rfl
  function := rfl
  code := rfl
  parameters := #[.int 7]
  store := looping.world.store
  bound := rfl
  own := by decide
  flag := 1
  returns := rfl
  valued := rfl
  nonzero := by decide

theorem tail_call_agrees_looping :
    loopingTail.reused.sp = 3 ∧
    ∃ pushed, loopingTail.push ⟨loopingTail.world, loopingTail.ready.machine⟩ =
      .ok () ⟨loopingTail.world, pushed⟩ ∧
      ∀ index < 2, loopingTail.reused.stack[1 + index]? = pushed.stack[4 + index]? := by
  obtain ⟨-, -, -, used, -, agrees, -⟩ := tail_call_agrees loopingTail
  refine ⟨used, loopingTail.ready.machine.pushFrame loopingTail.newFrame loopingTail.parameters,
    rfl, ?_⟩
  exact (agrees _ rfl).2.2.1

end Act

end ScriptMachine
