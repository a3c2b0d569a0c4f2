import ScriptMachine.Proofs.SlotEffects
import Mathlib.Logic.Relation

/-! The shape that every running machine has, and the moves that instructions are made of. Each move
keeps the shape, so whatever is composed of moves keeps it too. -/

namespace ScriptMachine

namespace CallStack

@[simp] theorem frames_push (calls : CallStack) (frame : Frame) :
    (calls.push frame).frames = frame :: calls.frames := rfl

theorem frames_changeTop (calls : CallStack) (change : Frame → Frame) {frame : Frame}
    {callers : List Frame} (top : calls.frames = frame :: callers) :
    (calls.changeTop change).frames = change frame :: callers := by
  obtain ⟨_, _, _⟩ := calls
  cases top
  rfl

end CallStack

/-- Frames on a stack of `size` slots, the running one first. The lowest one begins at the lowest
slot, every other one has room for its callee below, and the locals of each lie on the stack. -/
inductive Stacked (size : Nat) : List Frame → Prop where
  | bottom {frame : Frame} (base : frame.base = 0) (fits : frame.base + frame.code.frameSize ≤ size) :
      Stacked size [frame]
  | call {frame : Frame} {callers : List Frame} (base : 1 ≤ frame.base)
      (fits : frame.base + frame.code.frameSize ≤ size) (below : Stacked size callers) :
      Stacked size (frame :: callers)

namespace Stacked

variable {size : Nat} {frame : Frame} {callers : List Frame}

theorem exists_running {frames : List Frame} (stacked : Stacked size frames) :
    ∃ frame callers, frames = frame :: callers := by
  cases stacked with
  | bottom => exact ⟨_, _, rfl⟩
  | call => exact ⟨_, _, rfl⟩

theorem fits (stacked : Stacked size (frame :: callers)) :
    frame.base + frame.code.frameSize ≤ size := by
  cases stacked with
  | bottom _ fits => exact fits
  | call _ fits _ => exact fits

theorem above {caller : Frame} (stacked : Stacked size (frame :: caller :: callers)) :
    1 ≤ frame.base ∧ Stacked size (caller :: callers) := by
  cases stacked with
  | call base _ below => exact ⟨base, below⟩

theorem changeTop (stacked : Stacked size (frame :: callers)) {changed : Frame}
    (base : changed.base = frame.base) (code : changed.code = frame.code) :
    Stacked size (changed :: callers) := by
  cases stacked with
  | bottom zero fits => exact .bottom (base.trans zero) (by rw [base, code]; exact fits)
  | call one fits below => exact .call (base ▸ one) (by rw [base, code]; exact fits) below

end Stacked

namespace Machine

/-- A machine with `size` slots in working order. -/
structure Sound (size : Nat) (machine : Machine) : Prop where
  slots : machine.stack.size = size
  used : machine.sp ≤ size
  frames : Stacked size machine.frames
  code : ∀ frame callers, machine.frames = frame :: callers → machine.code = frame.code.instructions

/-- What instructions do to a machine. Each move names the slots it uses, and they exist. -/
inductive Move (limits : Limits) (machine : Machine) : Machine → Prop where
  | seek (ip opIp : Nat) {ticks : Nat} (later : machine.ticks ≤ ticks) :
      Move limits machine { machine with ip, opIp, ticks }
  | spend : Move limits machine { machine with budget := machine.budget - 1 }
  | push (value : Value) (room : machine.sp < machine.stack.size) :
      Move limits machine { machine with
        stack := machine.stack.setIfInBounds machine.sp value
        sp := machine.sp + 1 }
  /-- Empties the slots in use from an index on. -/
  | drop (start : Nat) (used : start ≤ machine.sp) :
      Move limits machine { machine with
        stack := clearSlots machine.stack start (machine.sp - start)
        sp := start }
  /-- Writes a slot, in use or not. -/
  | write (index : Nat) (value : Value) (inside : index < machine.stack.size) :
      Move limits machine { machine with stack := machine.stack.setIfInBounds index value }
  | enter (frame : Frame) (parameters : Array Value) (base : 1 ≤ frame.base)
      (allowed : machine.pushStop? limits frame parameters = none) :
      Move limits machine (machine.pushFrame frame parameters)
  | restart (frameSize : Nat) (parameters arguments : Array Value) (keywords : Table Value)
      (allowed : machine.restartStop? frameSize parameters = none) :
      Move limits machine (machine.restartFrame frameSize parameters arguments keywords)
  | leave (result : Value) (allowed : machine.popStop? = none) :
      Move limits machine (machine.popFrame result)

abbrev Moves (limits : Limits) : Machine → Machine → Prop := Relation.ReflTransGen (Move limits)

section Allowed

variable {limits : Limits} {machine : Machine}

theorem pushStop?_eq_none {frame : Frame} {parameters : Array Value}
    (allowed : machine.pushStop? limits frame parameters = none) :
    machine.frameDepth < limits.maxFrames ∧
      frame.base + frame.code.frameSize ≤ machine.stack.size := by
  simp only [pushStop?] at allowed
  split at allowed
  · cases allowed
  · split at allowed
    · cases allowed
    · omega

theorem restartStop?_eq_none {frameSize : Nat} {parameters : Array Value}
    (allowed : machine.restartStop? frameSize parameters = none) :
    ∃ frame callers, machine.frames = frame :: callers ∧
      frame.base + frameSize ≤ machine.stack.size := by
  unfold restartStop? at allowed
  split at allowed
  · cases allowed
  next frame callers top =>
    refine ⟨frame, callers, top, ?_⟩
    by_cases exceeds : frame.base + frameSize > machine.stack.size
    · simp [exceeds] at allowed
    · omega

theorem popStop?_eq_none (allowed : machine.popStop? = none) :
    ∃ frame caller callers, machine.frames = frame :: caller :: callers ∧ 1 ≤ frame.base ∧
      frame.base ≤ machine.stack.size := by
  unfold popStop? at allowed
  split at allowed
  next frame caller callers top =>
    refine ⟨frame, caller, callers, top, ?_⟩
    split at allowed
    next inside => omega
    next => cases allowed
  next => cases allowed

end Allowed

section Frames

variable (machine : Machine) (parameters : Array Value) {frame caller : Frame} {callers : List Frame}

theorem frames_pushFrame (frame : Frame) (top : machine.frames = caller :: callers) :
    (machine.pushFrame frame parameters).frames =
      frame :: { caller with resume := machine.ip } :: callers := by
  simp only [pushFrame, Machine.frames, CallStack.frames_push]
  rw [CallStack.frames_changeTop _ _ top]

theorem frames_restartFrame (frameSize : Nat) (arguments : Array Value) (keywords : Table Value)
    (top : machine.frames = frame :: callers) :
    (machine.restartFrame frameSize parameters arguments keywords).frames =
      { frame with arguments, keywords } :: callers :=
  CallStack.frames_changeTop _ _ top

theorem popFrame_eq (result : Value) (top : machine.frames = frame :: caller :: callers) :
    machine.popFrame result = { machine with
      stack := (clearSlots machine.stack frame.base (machine.sp - frame.base)).setIfInBounds
        (frame.base - 1) result
      sp := frame.base
      code := caller.code.instructions
      ip := caller.resume
      calls := machine.calls.pop } := by
  unfold popFrame
  rw [top]

end Frames

namespace Sound

variable {limits : Limits} {size : Nat} {machine after : Machine}

theorem enter (sound : machine.Sound size) {frame : Frame} {parameters : Array Value}
    (base : 1 ≤ frame.base) (allowed : machine.pushStop? limits frame parameters = none) :
    (machine.pushFrame frame parameters).Sound size := by
  obtain ⟨caller, callers, top⟩ := sound.frames.exists_running
  have fits := (pushStop?_eq_none allowed).2
  rw [sound.slots] at fits
  have frames := machine.frames_pushFrame parameters frame top
  refine ⟨?_, fits, ?_, ?_⟩
  · simpa only [pushFrame, size_loadSlots] using sound.slots
  · rw [frames]
    exact .call base fits ((top ▸ sound.frames).changeTop rfl rfl)
  · intro running below same
    rw [frames] at same
    cases same
    rfl

theorem restart (sound : machine.Sound size) {frameSize : Nat} {parameters : Array Value}
    (arguments : Array Value) (keywords : Table Value)
    (allowed : machine.restartStop? frameSize parameters = none) :
    (machine.restartFrame frameSize parameters arguments keywords).Sound size := by
  obtain ⟨frame, callers, top, fits⟩ := restartStop?_eq_none allowed
  rw [sound.slots] at fits
  have frames := machine.frames_restartFrame parameters frameSize arguments keywords top
  refine ⟨?_, ?_, ?_, ?_⟩
  · simpa only [restartFrame, size_loadSlots] using sound.slots
  · simpa only [restartFrame, top, List.head?_cons, Option.map_some, Option.getD_some] using fits
  · rw [frames]
    exact (top ▸ sound.frames).changeTop rfl rfl
  · intro running below same
    rw [frames] at same
    cases same
    exact sound.code frame _ top

theorem leave (sound : machine.Sound size) (result : Value) (allowed : machine.popStop? = none) :
    (machine.popFrame result).Sound size := by
  obtain ⟨frame, caller, callers, top, -, inside⟩ := popStop?_eq_none allowed
  rw [machine.popFrame_eq result top]
  have calls : machine.calls.pop.frames = caller :: callers := congrArg List.tail top
  refine ⟨?_, ?_, ?_, ?_⟩
  · simpa using sound.slots
  · rw [← sound.slots]
    exact inside
  · simp only [Machine.frames, calls]
    exact (top ▸ sound.frames).above.2
  · intro running below same
    simp only [Machine.frames, calls] at same
    cases same
    rfl

theorem move (sound : machine.Sound size) (moved : Move limits machine after) :
    after.Sound size := by
  cases moved with
  | seek => exact ⟨sound.slots, sound.used, sound.frames, sound.code⟩
  | spend => exact ⟨sound.slots, sound.used, sound.frames, sound.code⟩
  | push value room =>
    refine ⟨by simpa using sound.slots, ?_, sound.frames, sound.code⟩
    rw [← sound.slots]
    exact room
  | drop start used =>
    exact ⟨by simpa using sound.slots, Nat.le_trans used sound.used, sound.frames, sound.code⟩
  | write index value inside =>
    exact ⟨by simpa using sound.slots, sound.used, sound.frames, sound.code⟩
  | enter frame parameters base allowed => exact sound.enter base allowed
  | restart frameSize parameters arguments keywords allowed =>
    exact sound.restart arguments keywords allowed
  | leave result allowed => exact sound.leave result allowed

theorem moves (sound : machine.Sound size) (moved : Moves limits machine after) :
    after.Sound size := by
  induction moved with
  | refl => exact sound
  | tail _ last ih => exact ih.move last

end Sound

end Machine

end ScriptMachine
