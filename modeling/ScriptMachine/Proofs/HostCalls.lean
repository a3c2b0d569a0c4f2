import ScriptMachine.Proofs.Liveness
import ScriptMachine.Proofs.SessionHistories

/-! A call that the host makes while nothing runs, on a machine that an earlier run has left. The call
does not see what is on that machine. It counts the frames there with its own, though, and what the
machine holds stays alive. -/

namespace ScriptMachine

/-- The references that are held throughout an execution. -/
def Setting.fixed (setting : Setting) : List Ref :=
  (setting.program.values ++ setting.pinned).flatMap Value.refs

theorem Setting.mem_outside {setting : Setting} {chain : List Suspended} {ref : Ref} :
    ref ∈ setting.outside chain ↔ ref ∈ setting.fixed ∨ ref ∈ chain.flatMap Suspended.refs :=
  List.mem_append

theorem Suspended.mem_refs {suspended : Suspended} {ref : Ref}
    (near : ref ∈ suspended.machine.nearRefs) : ref ∈ suspended.refs :=
  List.mem_append_left _ (Machine.mem_refs_of_mem_nearRefs near)

/-- Machines that a call made on them cannot tell apart: they are in the same place with the same
budget, they have equally many frames, and they hold the same references, those apart that are held
anyway. -/
structure Machine.Interchangeable (fixed : List Ref) (one other : Machine) : Prop where
  station : one.station = other.station
  depth : one.calls.depth = other.calls.depth
  budget : one.budget = other.budget
  refs : ∀ ref, ref ∈ fixed ∨ ref ∈ one.refs ↔ ref ∈ fixed ∨ ref ∈ other.refs

theorem Machine.Interchangeable.withBudget {fixed : List Ref} {one other : Machine}
    (alike : one.Interchangeable fixed other) (budget : Int) :
    Machine.Interchangeable fixed { one with budget } { other with budget } :=
  ⟨alike.station, alike.depth, rfl, alike.refs⟩

/-- Chains of waiting machines that differ at the bottom only, where the host waits. -/
inductive Matches (fixed : List Ref) : List Suspended → List Suspended → Prop where
  | host {one other : Machine} (alike : one.Interchangeable fixed other) (natives : List Native) :
      Matches fixed [⟨one, .host, natives⟩] [⟨other, .host, natives⟩]
  | above (top : Suspended) {chain chain' : List Suspended} (below : Matches fixed chain chain') :
      Matches fixed (top :: chain) (top :: chain')

namespace Matches

variable {fixed : List Ref} {caller caller' : Suspended} {chain chain' : List Suspended}

theorem natives (matched : Matches fixed (caller :: chain) (caller' :: chain')) :
    caller.natives = caller'.natives := by
  cases matched with
  | host => rfl
  | above => rfl

theorem withNatives (matched : Matches fixed (caller :: chain) (caller' :: chain'))
    (natives : List Native) :
    Matches fixed ({ caller with natives } :: chain) ({ caller' with natives } :: chain') := by
  cases matched with
  | host alike => exact .host alike natives
  | above _ below => exact .above _ below

theorem withBudget (matched : Matches fixed (caller :: chain) (caller' :: chain')) (budget : Int) :
    Matches fixed ({ caller with machine := { caller.machine with budget } } :: chain)
      ({ caller' with machine := { caller'.machine with budget } } :: chain') := by
  cases matched with
  | host alike natives => exact .host (alike.withBudget budget) natives
  | above _ below => exact .above _ below

theorem nesting (matched : Matches fixed (caller :: chain) (caller' :: chain')) :
    caller.machine.nesting = caller'.machine.nesting := by
  cases matched with
  | host alike => exact congrArg Station.nesting alike.station
  | above => rfl

theorem child_eq (matched : Matches fixed (caller :: chain) (caller' :: chain')) (limits : Limits)
    (function : Ref) (arguments keywords : Value) :
    Execution.child limits caller.machine function arguments keywords =
      Execution.child limits caller'.machine function arguments keywords := by
  cases matched with
  | host alike =>
    obtain ⟨place, depth, budget, -⟩ := alike
    simp only [Machine.station, Station.mk.injEq] at place
    simp only [Execution.child, Machine.frameDepth, place, depth, budget]
  | above => rfl

theorem refs (matched : Matches fixed chain chain') (ref : Ref) :
    ref ∈ fixed ∨ ref ∈ chain.flatMap Suspended.refs ↔
      ref ∈ fixed ∨ ref ∈ chain'.flatMap Suspended.refs := by
  induction matched with
  | host alike natives =>
    have same := alike.refs ref
    simp only [Suspended.refs, List.flatMap_cons, List.flatMap_nil, List.append_nil,
      List.mem_append]
    grind
  | above top below ih =>
    simp only [List.flatMap_cons, List.mem_append]
    grind

end Matches

namespace Act

/-- Of the references held outside, an instruction notices only which there are. -/
theorem step_congr {program : Program} {outside outside' : List Ref}
    (same : ∀ ref, ref ∈ outside ↔ ref ∈ outside') :
    step ⟨program, fun _ => outside⟩ = step ⟨program, fun _ => outside'⟩ := by
  have received : receiver ⟨program, fun _ => outside⟩ = receiver ⟨program, fun _ => outside'⟩ := by
    funext hold value active
    have kept : active.world.store.keeps active.machine.nearRefs
        (fun _ => active.world.refs ++ active.machine.refs ++ outside) =
      active.world.store.keeps active.machine.nearRefs
        (fun _ => active.world.refs ++ active.machine.refs ++ outside') := by
      refine Store.keeps_congr fun ref => ?_
      simp only [List.mem_append, same]
    simp only [receiver, kept]
  have resolved : resolve ⟨program, fun _ => outside⟩ = resolve ⟨program, fun _ => outside'⟩ := by
    funext site
    unfold resolve
    rw [received]
  have called : call ⟨program, fun _ => outside⟩ = call ⟨program, fun _ => outside'⟩ := by
    unfold call
    rw [resolved]
  have functions : functions ⟨program, fun _ => outside⟩ = functions ⟨program, fun _ => outside'⟩ := by
    funext op
    unfold functions
    rw [called]
  unfold step execute
  rw [functions]

end Act

namespace Execution

variable {setting : Setting} {world : World} {fixed : List Ref} {caller caller' : Suspended}
  {chain chain' : List Suspended}

/-- Executions that differ at the bottom of their machines only. -/
inductive Twin (fixed : List Ref) : Execution → Execution → Prop where
  | running {world : World} {machine : Machine} {chain chain' : List Suspended}
      (matched : Matches fixed chain chain') :
      Twin fixed ⟨world, .running machine chain⟩ ⟨world, .running machine chain'⟩
  | native {world : World} {task : Task} {caller caller' : Suspended} {chain chain' : List Suspended}
      (matched : Matches fixed (caller :: chain) (caller' :: chain')) :
      Twin fixed ⟨world, .native task caller chain⟩ ⟨world, .native task caller' chain'⟩

/-- Steps that come out alike. -/
inductive Agree (fixed : List Ref) : Progress → Progress → Prop where
  | next {one other : Execution} (twin : Twin fixed one other) : Agree fixed (.next one) (.next other)
  | done {world : World} {one other : Machine} {result : Except Fault Value}
      (budget : one.budget = other.budget) :
      Agree fixed (.done world one result) (.done world other result)
  | broken : Agree fixed .broken .broken

theorem agree_enterChild (matched : Matches fixed (caller :: chain) (caller' :: chain'))
    (function : Ref) (arguments : Array Value) (keywords : Table Value) :
    Agree fixed (enterChild setting world function arguments keywords caller chain)
      (enterChild setting world function arguments keywords caller' chain') := by
  unfold enterChild
  rw [matched.nesting]
  split
  · exact .next (.native matched)
  · split
    · exact .next (.native matched)
    · dsimp only
      split
      · rw [matched.child_eq]
        exact .next (.running matched)
      · exact .next (.native matched)

theorem lives_eq (matched : Matches setting.fixed (caller :: chain) (caller' :: chain'))
    (request : Request) :
    lives setting world request caller chain = lives setting world request caller' chain' := by
  funext target
  refine congrFun (Store.keeps_congr fun ref => ?_) target
  have same := matched.refs ref
  have near : ref ∈ caller.machine.nearRefs → ref ∈ caller.refs := Suspended.mem_refs
  have near' : ref ∈ caller'.machine.nearRefs → ref ∈ caller'.refs := Suspended.mem_refs
  simp only [List.flatMap_cons, List.mem_append, Setting.mem_outside] at same ⊢
  grind only

theorem agree_callPlain (matched : Matches setting.fixed (caller :: chain) (caller' :: chain'))
    (request : Request) :
    Agree setting.fixed (callPlain setting world request caller chain)
      (callPlain setting world request caller' chain') := by
  unfold callPlain
  rw [lives_eq matched]
  split
  · exact agree_enterChild matched _ _ _
  · split
    · exact .next (.native matched)
    · exact agree_enterChild matched _ _ _
    · exact .next (.native matched)
  · exact .next (.native matched)

theorem agree_call (matched : Matches setting.fixed (caller :: chain) (caller' :: chain'))
    (request : Request) :
    Agree setting.fixed (call setting world request caller chain)
      (call setting world request caller' chain') := by
  unfold call
  rw [matched.natives]
  have held := matched.withNatives (.holding request.callee :: caller'.natives)
  dsimp only
  split
  · exact agree_callPlain held request
  · exact agree_enterChild held _ _ _
  · split
    · exact .next (.native held)
    · exact .next (.native held)

theorem agree_construct (matched : Matches fixed (caller :: chain) (caller' :: chain')) (type : Ref)
    (context : CallContext) :
    Agree fixed (construct world type context caller chain)
      (construct world type context caller' chain') := by
  unfold construct
  rw [matched.natives]
  split
  · split
    · exact .next (.native matched)
    · exact .next (.native matched)
  · split
    · exact .next (.native (matched.withNatives _))
    · exact .next (.native matched)
  · exact .next (.native matched)

theorem agree_invoke (matched : Matches fixed (caller :: chain) (caller' :: chain')) (callee : Value)
    (context : CallContext) :
    Agree fixed (invoke setting world callee context caller chain)
      (invoke setting world callee context caller' chain') := by
  unfold invoke
  rw [matched.natives]
  have labelled := matched.withNatives (.label callee :: caller'.natives)
  cases callee with
  | type ref => exact agree_construct labelled ref context
  | _ => exact .next (.native labelled)

theorem agree_routine (matched : Matches fixed (caller :: chain) (caller' :: chain'))
    (context : CallContext) (program : HostProgram) :
    Agree fixed (routine world context program caller chain)
      (routine world context program caller' chain') := by
  have made (make : StoreM Value) (next : Value → HostProgram) :
      Agree fixed (routine.made world context caller chain make next)
        (routine.made world context caller' chain' make next) := by
    unfold routine.made
    split
    · exact .next (.native matched)
    · exact .next (.native matched)
  unfold routine
  rw [matched.natives]
  cases program with
  | newArray elements next => exact made _ next
  | newMap entries next => exact made _ next
  | newError payload next => exact made _ next
  | call request held next => exact .next (.native (matched.withNatives _))
  | _ => exact .next (.native matched)

theorem agree_finish (matched : Matches fixed chain chain') (active : Active)
    (result : Except Fault Value) :
    Agree fixed (finish active result chain) (finish active result chain') := by
  have left {caller caller' : Suspended} {chain chain' : List Suspended}
      (matched : Matches fixed (caller :: chain) (caller' :: chain')) :
      Agree fixed (finish active result (caller :: chain)) (finish active result (caller' :: chain')) := by
    have spent := matched.withBudget active.machine.budget
    unfold finish
    dsimp only
    split
    · exact .next (.native spent)
    · exact .next (.native spent)
    · exact .broken
  cases matched with
  | host alike natives => exact left (.host alike natives)
  | above top below => exact left (.above top below)

theorem agree_afterAct (matched : Matches fixed chain chain') (outcome : EStateM.Result Stop Active Next) :
    Agree fixed (afterAct chain outcome) (afterAct chain' outcome) := by
  cases outcome with
  | ok next active => cases next with
    | proceed => exact .next (.running matched)
    | halt => exact agree_finish matched active _
    | await task pending => exact .next (.native (.above _ matched))
  | error stop active => cases stop with
    | fault fault => exact agree_finish matched active _
    | outOfRange => exact .broken

/-- The machines that differ are never resumed: the host gets the answer there. -/
theorem agree_deliver (matched : Matches fixed (caller :: chain) (caller' :: chain'))
    (result : Except Fault Value) :
    Agree fixed (deliver setting world result caller chain)
      (deliver setting world result caller' chain') := by
  have same := matched.natives
  cases waiting : caller.natives with
  | cons native natives =>
    have taken := matched.withNatives natives
    simp only [deliver, ← same, waiting]
    cases native with
    | routine context held next =>
      dsimp only
      split
      · exact .next (.native taken)
      · exact .next (.native taken)
    | _ => exact .next (.native taken)
  | nil =>
    simp only [deliver, ← same, waiting]
    cases matched with
    | host alike => exact .done alike.budget
    | above _ below =>
      split
      · exact .done rfl
      · exact agree_afterAct below _

theorem agree_step {one other : Execution} (twin : Twin setting.fixed one other) :
    Agree setting.fixed (step setting one) (step setting other) := by
  cases twin with
  | @running world machine chain chain' matched =>
    have same (ref : Ref) : ref ∈ setting.outside chain ↔ ref ∈ setting.outside chain' := by
      rw [Setting.mem_outside, Setting.mem_outside]
      exact matched.refs ref
    simp only [step]
    rw [Act.step_congr same]
    exact agree_afterAct matched _
  | @native world task caller caller' chain chain' matched =>
    cases task with
    | call request => exact agree_call matched request
    | invoke callee context => exact agree_invoke matched callee context
    | routine context program => exact agree_routine matched context program
    | answer result => exact agree_deliver matched result

theorem agree_run {one other : Execution} (twin : Twin setting.fixed one other) (fuel : Nat) :
    Agree setting.fixed (run setting fuel one) (run setting fuel other) := by
  induction fuel generalizing one other with
  | zero => exact .next twin
  | succ fuel ih =>
    have agree := agree_step twin
    simp only [run]
    generalize step setting one = progress at agree
    generalize step setting other = progress' at agree
    cases agree with
    | next later => exact ih later
    | done budget => exact .done budget
    | broken => exact .broken

end Execution

namespace Session

/-- Sessions that agree on all that a call is given: the program with its limits, the host, the globals
and the store, what the embedding program keeps, and the budget. -/
structure Agrees (one other : Session) : Prop where
  program : one.program = other.program
  host : one.host = other.host
  world : one.world = other.world
  registers : one.registers = other.registers
  budget : one.machine.budget = other.machine.budget

theorem Agrees.eq {one other : Session} (agrees : one.Agrees other) :
    other = { one with machine := other.machine } := by
  obtain ⟨program, host, world, machine, registers⟩ := other
  obtain ⟨rfl, rfl, rfl, rfl, -⟩ := agrees
  rfl

theorem agrees_anew {session : Session}
    (whole : session.machine.budget = Machine.initialBudget session.program.limits) :
    session.Agrees session.anew := ⟨rfl, rfl, rfl, rfl, whole⟩

/-- The session on another machine, with what is left of the budget. -/
def onto (session : Session) (machine : Machine) : Session :=
  { session with machine := { machine with budget := session.machine.budget } }

/-- A call cannot tell apart the machines it is made on, and leaves each as it was. -/
theorem call_interchangeable (session : Session) {machine : Machine} (fuel : Nat) (held : List Value)
    (request : Request) (alike : session.machine.Interchangeable (session.setting held).fixed machine) :
    call fuel held request { session with machine } =
      match call fuel held request session with
      | .ok value after => .ok value (after.onto machine)
      | .error reason after => .error reason (after.onto machine) := by
  have agree : Execution.Agree (session.setting held).fixed
      (Execution.run (session.setting held) fuel (session.calling request))
      (Execution.run (setting { session with machine } held) fuel
        (calling { session with machine } request)) :=
    Execution.agree_run (.native (.host alike [])) fuel
  have kept {world : World} {last : Machine} {result : Except Fault Value}
      (ended : Execution.run (setting { session with machine } held) fuel
        (calling { session with machine } request) = .done world last result) :
      last = { machine with budget := last.budget } := (during_calling ended).1.same
  unfold call
  generalize Execution.run (session.setting held) fuel (session.calling request) = first at agree
  generalize Execution.run (setting { session with machine } held) fuel
    (calling { session with machine } request) = second at agree kept
  cases agree with
  | next twin =>
    cases twin with
    | running => simp only [onto, alike.budget]
    | native => simp only [onto, alike.budget]
  | @done world last last' result budget =>
    have same : last' = { machine with budget := last.budget } := by
      rw [budget]
      exact kept rfl
    cases result with
    | ok value => simp only [onto, same]
    | error fault => simp only [onto, same]
  | broken => simp only [onto, alike.budget]

/-- Two sessions that agree on all that a call is given answer it alike, whatever has happened to them
before: with the same result or fault, the same globals and store, and the same budget left. What an
earlier run has left matters in two ways only. There have to be equally many frames, for they count
as if the call had been made from them; and what is left has to hold the same references, for it keeps
alive what a method may be bound to. -/
theorem host_calls_ignore_leftovers (one other : Session) (arises : one.Arises)
    (arises' : other.Arises) (agrees : one.Agrees other) (fuel : Nat) (held : List Value)
    (request : Request) (frames : one.machine.frames.length = other.machine.frames.length)
    (refs : ∀ ref, ref ∈ (one.setting held).fixed ∨ ref ∈ one.machine.refs ↔
      ref ∈ (one.setting held).fixed ∨ ref ∈ other.machine.refs) :
    (∀ value after, call fuel held request one = .ok value after →
      call fuel held request other = .ok value (after.onto other.machine)) ∧
    ∀ reason after, call fuel held request one = .error reason after →
      call fuel held request other = .error reason (after.onto other.machine) := by
  have alike : one.machine.Interchangeable (one.setting held).fixed other.machine := by
    refine ⟨arises.atRest.place.trans arises'.atRest.place.symm, ?_, agrees.budget, refs⟩
    rw [one.machine.calls.depth_eq, other.machine.calls.depth_eq]
    exact frames
  have same := call_interchangeable one fuel held request alike
  rw [← agrees.eq] at same
  refine ⟨?_, ?_⟩
  · intro value after called
    rw [same, called]
  · intro reason after called
    rw [same, called]

section Cancelled

variable {session : Session} {machine : Machine}

theorem startMachine_cancelled (started : session.startMachine .cancelled = .ok machine) :
    machine.expiry? session.world.store = some .aborted ∧
      machine.budget = Machine.initialBudget session.program.limits := by
  unfold startMachine at started
  dsimp only at started
  split at started
  · cases started
  · cases started
    exact ⟨rfl, rfl⟩

theorem run_cancelled (fuel : Nat) (started : session.startMachine .cancelled = .ok machine) :
    run (fuel + 1) .cancelled session = .ok (.failed ⟨.aborted, machine.trace session.program⟩)
      (session.settle session.world machine) := by
  obtain ⟨expired, -⟩ := startMachine_cancelled started
  have stops (around : Surroundings) : Act.step around ⟨session.world, machine⟩ =
      .error (.fault .aborted) ⟨{ session.world with aborting := true }, machine⟩ := by
    generalize session.world = world at expired ⊢
    obtain ⟨store, globals, aborting⟩ := world
    cases aborting with
    | true => rfl
    | false =>
      simp only [Act.step, bind, EStateM.bind, Act.observe, expired]
      rfl
  unfold run
  rw [started]
  simp only [Execution.run, Execution.step, stops, Execution.afterAct, Execution.finish]
  rfl

end Cancelled

def afterRun (session : Session) (deadline : Deadline) : Session := session.left (run 8 deadline)

theorem Arises.afterRun {session : Session} {deadline : Deadline} (arises : session.Arises)
    (succeeds : (EStateM.run' (run 8 deadline) session).isSome = true) :
    (session.afterRun deadline).Arises := arises.left_run succeeds

theorem agrees_cancelled {session : Session}
    (fits : session.mainCode.frameSize ≤ session.anew.machine.stack.size)
    (calm : session.world.aborting = false)
    (whole : session.machine.budget = Machine.initialBudget session.program.limits) :
    session.Agrees (session.anew.afterRun .cancelled) := by
  obtain ⟨machine, started⟩ : ∃ machine, session.anew.startMachine .cancelled = .ok machine :=
    exists_startMachine fits .cancelled
  have left : session.anew.afterRun .cancelled = session.anew.settle session.world machine :=
    left_of_ok (run_cancelled 7 started)
  rw [left]
  refine ⟨rfl, rfl, ?_, rfl, whole.trans (startMachine_cancelled started).2.symm⟩
  simp only [settle, ← calm]

/-- A main function that depends on a global: it stops with a value on its stack, or in the frame of a
function that it calls. -/
def stopsSomewhere : Blueprint where
  main := { instructions := assemble [⟨.getGlobal, [0]⟩, ⟨.jumpFalsy, [15]⟩, ⟨.constant, [0]⟩,
    ⟨.call, [0, 0, 0, 0]⟩, ⟨.suspend, []⟩, ⟨.constant, [2]⟩, ⟨.suspend, []⟩] }
  constants := [.function { instructions := assemble [⟨.suspend, []⟩] } [],
    .function { instructions := assemble [⟨.constant, [2]⟩, ⟨.ret, [1]⟩] } [], .plain (.int 7)]
  limits := { stackSize := 8, globalsSize := 1, maxFrames := 3 }

def unrun : Session := (create .standard stopsSomewhere).toOption.get (by decide +kernel)

theorem arises_unrun : unrun.Arises := .created (Except.eq_ok_get _)

/-- A session whose run has ended with the value on its stack. -/
def stopped : Session := unrun.afterRun .unlimited

/-- A session whose run has ended inside the function. -/
def nested : Session :=
  afterRun { unrun with world := { unrun.world with globals := #[.bool true] } } .unlimited

theorem arises_stopped : stopped.Arises := arises_unrun.afterRun (by decide +kernel)

theorem arises_nested : nested.Arises :=
  Arises.afterRun (.handled _ _ arises_unrun (.refl _)) (by decide +kernel)

def callSecond : SessionM Value := call 8 [] { callee := .function 2 }

theorem callSecond_of_int {session : Session} {number : Int64}
    (gives : (EStateM.run' callSecond session).bind Value.int? = some number) :
    ∃ after, callSecond session = .ok (.int number) after := by
  unfold EStateM.run' EStateM.run at gives
  cases done : callSecond session with
  | error reason after =>
    rw [done] at gives
    cases gives
  | ok value after =>
    rw [done] at gives
    cases value with
    | int given =>
      cases gives
      exact ⟨after, rfl⟩
    | _ => cases gives

def overflows (session : Session) : Bool :=
  match callSecond session with
  | .error (.fault .stackOverflow) _ => true
  | _ => false

theorem callSecond_of_overflows {session : Session} (fails : session.overflows = true) :
    ∃ after, callSecond session = .error (.fault .stackOverflow) after := by
  unfold overflows at fails
  split at fails
  next after done => exact ⟨after, done⟩
  · cases fails

/-- The value on the stack makes no difference. -/
theorem host_calls_ignore_leftovers_stopped :
    stopped.machine.sp = 1 ∧ (stopped.anew.afterRun .cancelled).machine.sp = 0 ∧
    ∃ after after', callSecond stopped = .ok (.int 7) after ∧
      callSecond (stopped.anew.afterRun .cancelled) = .ok (.int 7) after' := by
  refine ⟨by decide +kernel, by decide +kernel, ?_⟩
  have one : ∀ ref ∈ stopped.machine.refs, ref ∈ (stopped.setting []).fixed := by decide +kernel
  have other : ∀ ref ∈ (stopped.anew.afterRun .cancelled).machine.refs,
      ref ∈ (stopped.setting []).fixed := by decide +kernel
  obtain ⟨same, -⟩ := host_calls_ignore_leftovers stopped (stopped.anew.afterRun .cancelled)
    arises_stopped (.afterRun (.renewed arises_stopped) (by decide +kernel))
    (agrees_cancelled (by decide +kernel) (by decide +kernel) (by decide +kernel)) 8 []
    { callee := .function 2 } (by decide +kernel)
    fun ref => by rw [or_iff_left_of_imp (one ref), or_iff_left_of_imp (other ref)]
  have seven : (EStateM.run' callSecond stopped).bind Value.int? = some 7 := by decide +kernel
  obtain ⟨after, called⟩ := callSecond_of_int seven
  exact ⟨after, _, called, same _ _ called⟩

/-- The session whose run has ended inside a function has two frames left. A call fails there, though
it succeeds on a new machine with the same program, globals and store. -/
theorem leftover_frames_fail_host_calls :
    nested.Arises ∧ nested.anew.Arises ∧ nested.Agrees nested.anew ∧
    (∀ ref, ref ∈ (nested.setting []).fixed ∨ ref ∈ nested.machine.refs ↔
      ref ∈ (nested.setting []).fixed ∨ ref ∈ nested.anew.machine.refs) ∧
    (∃ after, callSecond nested.anew = .ok (.int 7) after) ∧
    ∃ after, callSecond nested = .error (.fault .stackOverflow) after := by
  have held : ∀ ref ∈ nested.machine.refs, ref ∈ (nested.setting []).fixed := by decide +kernel
  have bare : ∀ ref ∈ nested.anew.machine.refs, ref ∈ (nested.setting []).fixed := by decide +kernel
  refine ⟨arises_nested, .renewed arises_nested, agrees_anew (by decide +kernel), ?_,
    callSecond_of_int (by decide +kernel), callSecond_of_overflows (by decide +kernel)⟩
  intro ref
  rw [or_iff_left_of_imp (held ref), or_iff_left_of_imp (bare ref)]

end Session

end ScriptMachine
