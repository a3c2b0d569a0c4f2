import ScriptMachine.Proofs.ExecutionSafety
import ScriptMachine.Proofs.SelfCalls
import Mathlib

/-! The machines of a run stand one inside the other. Each knows how many are around it and how many
frames those have, no machine stands deeper than allowed, and no more frames than allowed are entered,
over all machines together. A call that would exceed either limit changes nothing. -/

namespace ScriptMachine

/-- The machines of an execution, the one at work first, each before those around it. -/
def Control.machines (control : Control) : List Machine :=
  control.active :: control.waiting.map (·.machine)

namespace Machine

def frameCount : List Machine → Nat
  | [] => 0
  | machine :: enclosing => machine.frames.length + frameCount enclosing

/-- A machine that counts the machines around it and their frames rightly and keeps to the limits. -/
structure Placed (limits : Limits) (machine : Machine) (enclosing : List Machine) : Prop where
  nesting : machine.nesting = enclosing.length
  allowed : machine.nesting ≤ limits.maxNestedCalls
  outer : machine.outerFrames = frameCount enclosing
  depth : 1 < machine.frames.length →
    machine.outerFrames + machine.frames.length ≤ limits.maxFrames

variable {limits : Limits} {machine after : Machine} {enclosing : List Machine}

theorem frameDepth_eq (machine : Machine) :
    machine.frameDepth = machine.outerFrames + machine.frames.length := by
  simp only [frameDepth, machine.calls.depth_eq, frames]

theorem length_changeTop (calls : CallStack) (change : Frame → Frame) :
    (calls.changeTop change).frames.length = calls.frames.length := by
  obtain ⟨frames, depth, depth_eq⟩ := calls
  cases frames with
  | nil => rfl
  | cons frame callers => rfl

namespace Placed

theorem congr (placed : machine.Placed limits enclosing) (nesting : after.nesting = machine.nesting)
    (outer : after.outerFrames = machine.outerFrames)
    (frames : after.frames.length = machine.frames.length) : after.Placed limits enclosing := by
  refine ⟨?_, ?_, ?_, ?_⟩
  · rw [nesting]
    exact placed.nesting
  · rw [nesting]
    exact placed.allowed
  · rw [outer]
    exact placed.outer
  · rw [outer, frames]
    exact placed.depth

/-- The check before a call is what bounds the depth after it. -/
theorem move (placed : machine.Placed limits enclosing) (moved : Move limits machine after) :
    after.Placed limits enclosing := by
  cases moved with
  | seek => exact placed.congr rfl rfl rfl
  | spend => exact placed.congr rfl rfl rfl
  | push value room => exact placed.congr rfl rfl rfl
  | drop start used => exact placed.congr rfl rfl rfl
  | write index value inside => exact placed.congr rfl rfl rfl
  | enter frame parameters base allowed =>
    have shallow := (pushStop?_eq_none allowed).1
    rw [frameDepth_eq] at shallow
    have frames : (machine.pushFrame frame parameters).frames.length =
        machine.frames.length + 1 := by
      simp only [pushFrame, Machine.frames, CallStack.frames_push, List.length_cons,
        length_changeTop]
    refine ⟨placed.nesting, placed.allowed, placed.outer, ?_⟩
    intro _
    rw [frames]
    exact shallow
  | restart frameSize parameters arguments keywords allowed =>
    exact placed.congr rfl rfl (length_changeTop _ _)
  | leave result allowed =>
    obtain ⟨frame, caller, callers, top, -, -⟩ := popStop?_eq_none allowed
    have left := machine.popFrame_eq result top
    have frames : (machine.popFrame result).frames = caller :: callers := by
      rw [left]
      exact congrArg List.tail top
    have before := placed.depth
    rw [top] at before
    refine ⟨?_, ?_, ?_, ?_⟩
    · rw [left]
      exact placed.nesting
    · rw [left]
      exact placed.allowed
    · rw [left]
      exact placed.outer
    · intro several
      have outer : (machine.popFrame result).outerFrames = machine.outerFrames := by rw [left]
      rw [outer, frames]
      simp only [List.length_cons] at before ⊢
      omega

theorem moves (placed : machine.Placed limits enclosing) (moved : Moves limits machine after) :
    after.Placed limits enclosing := by
  induction moved with
  | refl => exact placed
  | tail _ last ih => exact ih.move last

end Placed

end Machine

/-- Machines each of which is placed right inside those after it. -/
inductive Nested (limits : Limits) : List Machine → Prop where
  | none : Nested limits []
  | inside {machine : Machine} {enclosing : List Machine}
      (placed : machine.Placed limits enclosing) (around : Nested limits enclosing) :
      Nested limits (machine :: enclosing)

theorem Nested.placed {limits : Limits} {inner enclosing : List Machine} {machine : Machine}
    (nested : Nested limits (inner ++ machine :: enclosing)) :
    machine.Placed limits enclosing := by
  induction inner with
  | nil =>
    cases nested with
    | inside placed around => exact placed
  | cons innermost inner ih =>
    cases nested with
    | inside placed around => exact ih around

/-- A step after which all machines that go on are placed right. -/
def Progress.Nested (limits : Limits) : Progress → Prop
  | .next execution => ScriptMachine.Nested limits execution.control.machines
  | .done .. | .broken => True

namespace Execution

variable {limits : Limits} {size : Nat} {setting : Setting} {chain : List Suspended}

/-- The machine that waited for one that has stopped is at work again, where it was. -/
theorem nested_finish (active : Active) (result : Except Fault Value)
    (around : Nested limits (chain.map (·.machine))) :
    (finish active result chain).Nested limits := by
  cases chain with
  | nil => trivial
  | cons caller chain =>
    cases around with
    | inside placed around =>
      have again : Nested limits ({ caller.machine with budget := active.machine.budget } ::
          chain.map (·.machine)) := .inside (placed.congr rfl rfl rfl) around
      obtain ⟨answer, -, -, same⟩ | ⟨-, same⟩ := finish_cons_cases active result caller chain
      · rw [same]
        exact again
      · rw [same]
        trivial

theorem nested_afterAct {act : Act Next} {pre : Machine → Prop} {active : Active}
    (travels : act.Travels limits (slotsAbove limits size chain) pre
      fun next machine => next.Ready machine)
    (sound : active.machine.Sound (slotsAbove limits size chain)) (met : pre active.machine)
    (nested : Nested limits (active.machine :: chain.map (·.machine))) :
    (afterAct chain (act active)).Nested limits := by
  have outcome := travels active sound met
  cases nested with
  | inside placed around =>
    cases done : act active with
    | ok next after =>
      rw [done] at outcome
      have moved := placed.moves outcome.1
      cases next with
      | proceed => exact .inside moved around
      | halt => exact nested_finish after _ around
      | await task pending => exact .inside moved around
    | error stop after =>
      cases stop with
      | fault fault => exact nested_finish after _ around
      | outOfRange => trivial

theorem placed_child {caller : Suspended} (function : Ref) (arguments keywords : Value)
    (placed : caller.machine.Placed limits (chain.map (·.machine)))
    (allowed : caller.machine.nesting < limits.maxNestedCalls) :
    (child limits caller.machine function arguments keywords).Placed limits
      ((caller :: chain).map (·.machine)) := by
  refine ⟨?_, allowed, ?_, ?_⟩
  · simp only [child, List.map_cons, List.length_cons, placed.nesting]
  · simp only [child, Machine.frameDepth_eq, List.map_cons, Machine.frameCount, placed.outer]
    omega
  · intro several
    exact absurd several (by simp [child, Machine.frames, CallStack.push, CallStack.empty])

theorem nested_turn {execution : Execution} {progress : Progress}
    (turn : Turn setting execution progress)
    (sound : execution.control.Sound setting.program.limits size)
    (nested : Nested setting.program.limits execution.control.machines) :
    progress.Nested setting.program.limits := by
  cases turn with
  | instruction =>
    exact nested_afterAct (Act.steps_step ⟨setting.program, _⟩) sound.1 trivial nested
  | completion waits =>
    cases sound with
    | cons machine ready below =>
      exact nested_afterAct (Act.travels_resume _ _ _) machine ready nested
  | reply => trivial
  | native natives => exact nested
  | child natives function arguments keywords silent allowed =>
    cases nested with
    | inside placed around =>
      exact .inside (placed_child function arguments keywords placed allowed)
        (.inside placed around)

theorem nested_reaches {start execution : Execution}
    (sound : start.control.Sound setting.program.limits size)
    (nested : Nested setting.program.limits start.control.machines)
    (reached : Reaches setting start execution) :
    Nested setting.program.limits execution.control.machines := by
  induction reached with
  | refl => exact nested
  | tail earlier stepped ih =>
    have next := nested_turn (turn_step setting _) (sound_reaches sound earlier) ih
    rw [stepped] at next
    exact next

end Execution

/-- A call that finds no frame left stops where it is. Only its arguments have been bound. -/
theorem Act.BoundCall.refused {around : Surroundings} {active : Active}
    (bound : BoundCall around active)
    (fresh : bound.ready.machine.reusesFrame bound.ref = false)
    (full : around.program.limits.maxFrames < active.machine.frameDepth + 1) :
    ∃ ip, call around active =
      .error (.fault .stackOverflow) ⟨bound.world, { active.machine with ip }⟩ := by
  obtain ⟨ip, ready⟩ := bound.ready_eq
  refine ⟨ip, ?_⟩
  have stop : bound.ready.machine.pushStop? around.program.limits bound.newFrame bound.parameters =
      some (.fault .stackOverflow) := by
    rw [ready]
    exact if_pos (Nat.le_of_lt_succ full)
  have refusal : bound.push ⟨bound.world, bound.ready.machine⟩ =
      .error (.fault .stackOverflow) ⟨bound.world, bound.ready.machine⟩ := by
    simp only [BoundCall.newFrame] at stop
    simp only [BoundCall.push, enterFrame, changeUnless, stop]
  rw [bound.call_eq, if_neg (by simp [fresh])]
  simp only [thenProceed, Bind.bind, EStateM.bind, refusal]
  rw [ready]

namespace Execution

variable {setting : Setting} {world : World} {machine : Machine} {caller : Suspended}
  {chain : List Suspended} {request : Request}

/-- A machine about to call a function whose arguments can be bound. -/
structure Calling (setting : Setting) (world : World) (machine : Machine)
    (chain : List Suspended) where
  fetched : (Act.observe >>= fun _ => Act.fetch) ⟨world, machine⟩ = .ok .call ⟨world, { machine with
    ip := machine.ip + 1, opIp := machine.ip, ticks := machine.ticks + 1 }⟩
  bound : Act.BoundCall ⟨setting.program, fun _ => setting.outside chain⟩ ⟨world, { machine with
    ip := machine.ip + 1, opIp := machine.ip, ticks := machine.ticks + 1 }⟩

theorem Calling.refused (calling : Calling setting world machine chain)
    (fresh : calling.bound.ready.machine.reusesFrame calling.bound.ref = false)
    (full : setting.program.limits.maxFrames < machine.outerFrames + machine.frames.length + 1) :
    ∃ ip, step setting ⟨world, .running machine chain⟩ =
      finish ⟨calling.bound.world, { machine with
        ip, opIp := machine.ip, ticks := machine.ticks + 1 }⟩ (.error .stackOverflow) chain := by
  rw [← Machine.frameDepth_eq] at full
  obtain ⟨ip, stopped⟩ := calling.bound.refused fresh full
  obtain ⟨_, middle, observed, fetched⟩ := bind_eq_ok calling.fetched
  refine ⟨ip, ?_⟩
  simp only [step, Act.step, Bind.bind, EStateM.bind, observed, fetched]
  show afterAct chain (Act.call _ _) = _
  rw [stopped]
  rfl

/-- A native-side call that comes down to running a function. -/
inductive Runs (setting : Setting) (world : World) (request : Request) (caller : Suspended)
    (chain : List Suspended) : Prop where
  | plain (function : Ref) (callee : request.callee = .function function)
      (receiver : request.receiver = none)
  | bound (id : Nat) (hold : Hold) (function : Ref) (subject held : Value)
      (callee : request.callee = .bound id hold (.function function) subject)
      (receiver : request.receiver = none)
      (there : Value.heldReceiver? (lives setting world request
        { caller with natives := .holding request.callee :: caller.natives } chain) hold subject =
          some held)
  | method (function : Ref) (subject : Value) (callee : request.callee = .function function)
      (receiver : request.receiver = some subject)

theorem enterChild_refused (function : Ref) (arguments : Array Value) (keywords : Table Value)
    (full : setting.program.limits.maxNestedCalls < caller.machine.nesting + 1) :
    enterChild setting world function arguments keywords caller chain =
      answer world (.error .stackOverflow) caller chain :=
  if_pos (Nat.le_of_lt_succ full)

/-- No machine is made for a call that is nested too deep, and the caller is told so. -/
theorem call_refused (runs : Runs setting world request caller chain)
    (full : setting.program.limits.maxNestedCalls < caller.machine.nesting + 1) :
    call setting world request caller chain =
      answer world (.error .stackOverflow)
        { caller with natives := .holding request.callee :: caller.natives } chain := by
  cases runs with
  | plain function callee receiver =>
    simp only [call, receiver, callPlain, callee]
    exact enterChild_refused _ _ _ full
  | bound id hold function subject held callee receiver there =>
    rw [callee] at there
    simp only [call, receiver, callPlain, callee, there]
    exact enterChild_refused _ _ _ full
  | method function subject callee receiver =>
    simp only [call, receiver, callee]
    exact enterChild_refused _ _ _ full

end Execution

namespace Session

theorem nested_startMachine {session : Session} {deadline : Deadline} {machine : Machine}
    (started : session.startMachine deadline = .ok machine) :
    Nested session.program.limits [machine] := by
  simp only [startMachine] at started
  split at started
  · cases started
  · cases started
    refine .inside ⟨rfl, Nat.zero_le _, rfl, ?_⟩ .none
    intro several
    exact absurd several (by simp [Machine.frames, CallStack.push, CallStack.empty])

/-- In every state of a run, every machine knows how many machines are around it and how many frames
these have, and neither limit is exceeded. A call for which no frame or no machine is left fails: the
machine that called has the frames and the stack it had, and nothing of the callee is executed. -/
theorem depth_limits_hold (session : Session) (deadline : Deadline) (machine : Machine)
    (started : session.startMachine deadline = .ok machine) (execution : Execution)
    (reached : Execution.Reaches (session.setting []) ⟨session.world, .running machine []⟩ execution) :
    (∀ inner machine enclosing, execution.control.machines = inner ++ machine :: enclosing →
      machine.Placed session.program.limits enclosing) ∧
    (∀ world caller chain, execution = ⟨world, .running caller chain⟩ →
      ∀ calling : Execution.Calling (session.setting []) world caller chain,
        calling.bound.ready.machine.reusesFrame calling.bound.ref = false →
        session.program.limits.maxFrames < caller.outerFrames + caller.frames.length + 1 →
        ∃ ip, Execution.step (session.setting []) execution =
          Execution.finish ⟨calling.bound.world, { caller with
            ip, opIp := caller.ip, ticks := caller.ticks + 1 }⟩ (.error .stackOverflow) chain) ∧
    ∀ world request caller chain, execution = ⟨world, .native (.call request) caller chain⟩ →
      Execution.Runs (session.setting []) world request caller chain →
      session.program.limits.maxNestedCalls < caller.machine.nesting + 1 →
        Execution.step (session.setting []) execution = .next ⟨world,
          .native (.answer (.error .stackOverflow))
            { caller with natives := .holding request.callee :: caller.natives } chain⟩ := by
  refine ⟨?_, ?_, ?_⟩
  · have sound : (Control.running machine []).Sound session.program.limits
        session.machine.stack.size := ⟨sound_startMachine started, .nil⟩
    have nested := Execution.nested_reaches sound (nested_startMachine started) reached
    intro inner machine enclosing split
    rw [split] at nested
    exact nested.placed
  · rintro world caller chain rfl calling fresh full
    exact calling.refused fresh full
  · rintro world request caller chain rfl runs full
    exact Execution.call_refused runs full

/-- A session with room for the frame of its main function only. -/
def crowded (main : List Instruction) : Session where
  program :=
    { main := 0
      constants := #[.function 1, .host 0 ⟨"apply", "apply", false⟩]
      limits := { stackSize := 2, maxFrames := 1, maxNestedCalls := 0 } }
  host := fun _ context => .call (.applied context) [] .reply
  world := { store := { cells := #[.function { code := { instructions := assemble main } },
    .function { code := { instructions := assemble [⟨.ret, [0]⟩] } }] } }
  machine := .blank { stackSize := 2 } {}

def crowdedMachine (session : Session) (stack : Array Value) (sp ip opIp ticks : Nat) : Machine :=
  { stack, sp, ip, opIp, ticks
    calls := CallStack.empty.push { function := some 0, code := session.mainCode }
    code := session.mainCode.instructions
    budget := 0 }

def crowdedCaller : Session := crowded [⟨.constant, [0]⟩, ⟨.call, [0, 0, 0, 0]⟩]

def crowdedCalling : Execution.Calling (crowdedCaller.setting []) crowdedCaller.world
    (crowdedMachine crowdedCaller #[.function 1, .undefined] 1 3 0 1) [] where
  fetched := rfl
  bound :=
    { site := ⟨1, .function 1, #[], {}⟩
      found := ⟨crowdedCaller.world,
        crowdedMachine crowdedCaller #[.function 1, .undefined] 1 8 3 2⟩
      read := by cbv
      ref := 1
      arguments := #[]
      ready := ⟨crowdedCaller.world,
        crowdedMachine crowdedCaller #[.function 1, .undefined] 1 8 3 2⟩
      resolved := rfl
      parameters := #[]
      store := crowdedCaller.world.store
      bound := rfl }

def crowdedApplier : Session :=
  crowded [⟨.constant, [1]⟩, ⟨.constant, [0]⟩, ⟨.call, [1, 0, 0, 0]⟩]

def crowdedHost : Suspended :=
  { machine := crowdedMachine crowdedApplier
      #[.host 0 ⟨"apply", "apply", false⟩, .function 1] 2 11 6 3
    pending := .native 1 false
    natives := [.routine ⟨#[.function 1], {}, none⟩ [] .reply,
      .label (.host 0 ⟨"apply", "apply", false⟩)] }

theorem depth_limits_hold_crowded :
    (∃ start, crowdedCaller.startMachine .unlimited = .ok start ∧
      start.Placed crowdedCaller.program.limits [] ∧
      ∃ machine, Execution.step (crowdedCaller.setting []) ⟨crowdedCaller.world,
        .running (crowdedMachine crowdedCaller #[.function 1, .undefined] 1 3 0 1) []⟩ =
          .done crowdedCaller.world machine (.error .stackOverflow)) ∧
    ∃ start, crowdedApplier.startMachine .unlimited = .ok start ∧
      ∃ caller, Execution.step (crowdedApplier.setting []) ⟨crowdedApplier.world,
        .native (.call { callee := .function 1 }) crowdedHost []⟩ =
          .next ⟨crowdedApplier.world, .native (.answer (.error .stackOverflow)) caller []⟩ := by
  constructor
  · let start := crowdedMachine crowdedCaller #[.undefined, .undefined] 0 0 0 0
    have started : crowdedCaller.startMachine .unlimited = .ok start := rfl
    have toCall : Execution.Reaches (crowdedCaller.setting [])
        ⟨crowdedCaller.world, .running start []⟩ ⟨crowdedCaller.world,
          .running (crowdedMachine crowdedCaller #[.function 1, .undefined] 1 3 0 1) []⟩ :=
      Execution.reaches_of_run 1 (by cbv)
    obtain ⟨placed, -, -⟩ := depth_limits_hold _ _ start started _ .refl
    obtain ⟨-, refused, -⟩ := depth_limits_hold _ _ start started _ toCall
    obtain ⟨ip, stopped⟩ := refused _ _ _ rfl crowdedCalling (by cbv) (by decide)
    exact ⟨start, started, placed [] start [] rfl, _, stopped⟩
  · let start := crowdedMachine crowdedApplier #[.undefined, .undefined] 0 0 0 0
    have started : crowdedApplier.startMachine .unlimited = .ok start := rfl
    have toHost : Execution.Reaches (crowdedApplier.setting [])
        ⟨crowdedApplier.world, .running start []⟩
        ⟨crowdedApplier.world, .native (.call { callee := .function 1 }) crowdedHost []⟩ :=
      Execution.reaches_of_run 5 (by cbv)
    obtain ⟨-, -, refused⟩ := depth_limits_hold _ _ start started _ toHost
    exact ⟨start, started, _, refused _ _ _ _ rfl (.plain 1 rfl rfl) (by decide)⟩

end Session

end ScriptMachine
