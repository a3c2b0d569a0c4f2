import ScriptMachine.Proofs.SessionHistories

/-! Asking a run to stop. From then on no instruction begins and no global changes, on whatever machine,
and the run can end with a fault only. Once it has ended the request is gone. -/

namespace ScriptMachine

theorem World.globals_compute {α : Type} (world : World) (action : StoreM α) :
    (world.compute action).2.globals = world.globals := by
  obtain ⟨store, globals, aborting⟩ := world
  simp only [World.compute]
  cases action store with
  | ok result after => rfl
  | error fault after => rfl

theorem World.globals_of_compute {α : Type} {world later : World} {action : StoreM α}
    {result : Except Fault α} (made : world.compute action = (result, later)) :
    later.globals = world.globals := by
  rw [← world.globals_compute action, made]

/-- How often a waiting instruction may still have to wait again. -/
def Pending.remaining : Pending → Nat
  | .walk _ rest _ => rest.length + 1
  | _ => 0

namespace Act

variable {α β : Type} {active after : Active} {next : Next}

def LeavesGlobals (act : Act α) : Prop :=
  ∀ active : Active, (final (act active)).world.globals = active.world.globals

theorem leavesGlobals_compositional : Compositional @LeavesGlobals where
  pure _ _ := rfl
  bind {_ _ first rest} begins next active := by
    have begun := begins active
    simp only [Bind.bind, EStateM.bind]
    cases done : first active with
    | ok value middle =>
      rw [done] at begun
      exact (next value middle).trans begun
    | error stop after =>
      rw [done] at begun
      exact begun

theorem LeavesGlobals.bind {first : Act α} {rest : α → Act β} (begins : LeavesGlobals first)
    (next : ∀ value, LeavesGlobals (rest value)) : LeavesGlobals (first >>= rest) :=
  leavesGlobals_compositional.bind begins next

theorem LeavesGlobals.ofWorld {act : Act α}
    (same : ∀ world machine, (final (act ⟨world, machine⟩)).world = world) : LeavesGlobals act :=
  fun active => congrArg World.globals (same active.world active.machine)

theorem leavesGlobals_ofExcept (result : Except Fault α) : LeavesGlobals (ofExcept result) := by
  apply LeavesGlobals.ofWorld
  intro world machine
  cases result with
  | ok value => rfl
  | error fault => rfl

theorem leavesGlobals_onStore (action : StoreM α) : LeavesGlobals (onStore action) := by
  intro ⟨world, machine⟩
  have kept := world.globals_compute action
  simp only [onStore]
  cases done : world.compute action with
  | mk result after =>
    rw [done] at kept
    cases result with
    | ok value => exact kept
    | error fault => exact kept

theorem leavesGlobals_push (value : Value) : LeavesGlobals (push value) := by
  apply LeavesGlobals.ofWorld
  intro world machine
  unfold push
  dsimp only
  split
  · rfl
  · rfl

theorem leavesGlobals_require (inside : Prop) [Decidable inside] : LeavesGlobals (require inside) := by
  apply LeavesGlobals.ofWorld
  intro world machine
  unfold require
  split
  · rfl
  · rfl

theorem leavesGlobals_dropTo (start : Nat) : LeavesGlobals (dropTo start) := by
  apply LeavesGlobals.ofWorld
  intro world machine
  unfold dropTo
  dsimp only
  split
  · rfl
  · rfl

theorem leavesGlobals_charge (limits : Limits) : LeavesGlobals (charge limits) := by
  apply LeavesGlobals.ofWorld
  intro world machine
  unfold charge
  dsimp only
  split
  · rfl
  · split
    · rfl
    · rfl

theorem leavesGlobals_setTop (value : Value) : LeavesGlobals (setTop value) := by
  intro active
  unfold setTop
  split
  · rfl
  · unfold setSlot
    dsimp only
    split
    · rfl
    · rfl

theorem leavesGlobals_finishNative (limits : Limits) (start : Nat) (fromStack : Bool)
    (result : Value) : LeavesGlobals (finishNative limits start fromStack result) := by
  apply (leavesGlobals_require _).bind
  intro _
  apply (leavesGlobals_dropTo _).bind
  intro _
  apply (leavesGlobals_charge limits).bind
  intro _
  split
  · exact leavesGlobals_setTop result
  · exact leavesGlobals_push result

theorem leavesGlobals_walk (assignment : Assignment) (container : Value) (rest : List Value) :
    LeavesGlobals (walk assignment container rest) := by
  induction rest generalizing container with
  | nil =>
    apply (leavesGlobals_onStore _).bind
    intro answer
    cases answer with
    | value _ => exact leavesGlobals_compositional.pure _
    | call property request => exact leavesGlobals_compositional.pure _
  | cons selector rest ih =>
    apply (leavesGlobals_onStore _).bind
    intro answer
    cases answer with
    | value next => exact ih next
    | call property request => exact leavesGlobals_compositional.pure _

theorem leavesGlobals_resume (limits : Limits) (pending : Pending) (result : Except Fault Value) :
    LeavesGlobals (resume limits pending result) := by
  apply (leavesGlobals_ofExcept result).bind
  intro value
  cases pending with
  | push held => exact (leavesGlobals_push value).bind fun _ => leavesGlobals_compositional.pure _
  | walk assignment rest held => exact leavesGlobals_walk assignment value rest
  | finish held => exact leavesGlobals_compositional.pure _
  | native start fromStack =>
    exact (leavesGlobals_finishNative limits start fromStack value).bind fun _ =>
      leavesGlobals_compositional.pure _
  | host => exact leavesGlobals_compositional.pure _

/-- An instruction that is completed goes on, or waits again with less of its way before it. -/
def Next.Nears (bound : Nat) : Next → Prop
  | .proceed => True
  | .halt => False
  | .await _ pending => pending.remaining < bound

theorem nears_walk {assignment : Assignment} {container : Value} {rest : List Value}
    (walked : walk assignment container rest active = .ok next after) :
    Next.Nears (rest.length + 1) next := by
  induction rest generalizing container active with
  | nil =>
    obtain ⟨answer, middle, -, ended⟩ := bind_eq_ok walked
    cases answer with
    | value _ =>
      cases ended
      trivial
    | call property request =>
      cases ended
      exact Nat.succ_pos _
  | cons selector rest ih =>
    obtain ⟨answer, middle, -, ended⟩ := bind_eq_ok walked
    cases answer with
    | value value =>
      have nears := ih ended
      cases next with
      | proceed => trivial
      | halt => exact nears
      | await task pending => exact Nat.lt_succ_of_lt nears
    | call property request =>
      cases ended
      exact Nat.lt_succ_self _

theorem nears_resume {limits : Limits} {pending : Pending} {result : Except Fault Value}
    (resumed : resume limits pending result active = .ok next after) :
    Next.Nears pending.remaining next := by
  obtain ⟨value, middle, -, ended⟩ := bind_eq_ok resumed
  cases pending with
  | push held =>
    obtain ⟨-, last, -, done⟩ := bind_eq_ok ended
    cases done
    trivial
  | walk assignment rest held => exact nears_walk ended
  | finish held =>
    cases ended
    trivial
  | native start fromStack =>
    obtain ⟨-, last, -, done⟩ := bind_eq_ok ended
    cases done
    trivial
  | host =>
    cases ended
    trivial

end Act

def Progress.HasGlobals (globals : Array Value) : Progress → Prop
  | .next execution => execution.world.globals = globals
  | .done world _ _ => world.globals = globals
  | .broken => True

namespace Execution

variable {setting : Setting} {world : World} {caller : Suspended} {chain : List Suspended}

section Globals

theorem hasGlobals_finish (active : Active) (result : Except Fault Value) (chain : List Suspended) :
    (finish active result chain).HasGlobals active.world.globals := by
  cases chain with
  | nil => rfl
  | cons caller chain =>
    have released : (active.world.release active.machine.serves).globals = active.world.globals := by
      cases active.machine.serves with
      | none => rfl
      | some function => rfl
    obtain ⟨answer, -, -, same⟩ | ⟨-, same⟩ := finish_cons_cases active result caller chain
    · rw [same]
      exact released
    · rw [same]
      trivial

theorem hasGlobals_afterAct {act : Act Next} (leaves : act.LeavesGlobals) (active : Active)
    (chain : List Suspended) : (afterAct chain (act active)).HasGlobals active.world.globals := by
  have kept := leaves active
  cases done : act active with
  | ok next after =>
    rw [done] at kept
    cases next with
    | proceed => exact kept
    | halt => exact kept ▸ hasGlobals_finish after _ chain
    | await task pending => exact kept
  | error stop after =>
    rw [done] at kept
    cases stop with
    | fault fault => exact kept ▸ hasGlobals_finish after _ chain
    | outOfRange => trivial

theorem hasGlobals_enterChild (function : Ref) (arguments : Array Value) (keywords : Table Value) :
    (enterChild setting world function arguments keywords caller chain).HasGlobals world.globals := by
  unfold enterChild
  split
  · rfl
  · split
    · rfl
    · dsimp only
      split
      next made => exact (World.globals_of_compute made).trans rfl
      next made => exact (World.globals_of_compute made).trans rfl

theorem hasGlobals_call (request : Request) :
    (call setting world request caller chain).HasGlobals world.globals := by
  unfold call
  dsimp only
  split
  · unfold callPlain
    split
    · exact hasGlobals_enterChild _ _ _
    · split
      · rfl
      · exact hasGlobals_enterChild _ _ _
      · rfl
    · rfl
  · exact hasGlobals_enterChild _ _ _
  · split
    next made => exact World.globals_of_compute made
    next made => exact World.globals_of_compute made

theorem hasGlobals_invoke (callee : Value) (context : CallContext) :
    (invoke setting world callee context caller chain).HasGlobals world.globals := by
  cases callee with
  | builtin id entry => exact world.globals_compute _
  | mapper id subject => exact world.globals_compute _
  | type ref =>
    unfold invoke construct
    dsimp only
    split
    · split
      · exact world.globals_compute _
      · rfl
    · split
      next made => exact World.globals_of_compute made
      next made => exact World.globals_of_compute made
    · rfl
  | _ => rfl

theorem hasGlobals_routine (context : CallContext) (program : HostProgram) :
    (routine world context program caller chain).HasGlobals world.globals := by
  have made (make : StoreM Value) (next : Value → HostProgram) :
      (routine.made world context caller chain make next).HasGlobals world.globals := by
    unfold routine.made
    split
    next made => exact World.globals_of_compute made
    next made => exact World.globals_of_compute made
  unfold routine
  cases program with
  | newArray elements next => exact made _ next
  | newMap entries next => exact made _ next
  | newError payload next => exact made _ next
  | _ => rfl

theorem hasGlobals_deliver (result : Except Fault Value) :
    (deliver setting world result caller chain).HasGlobals world.globals := by
  unfold deliver
  split
  · rfl
  · rfl
  · rfl
  · split
    · rfl
    · rfl
  · split
    · rfl
    · exact hasGlobals_afterAct (Act.leavesGlobals_resume _ _ _) _ _

end Globals

/-- A machine that has been asked to stop does not begin its next instruction: it stops where it is. -/
theorem step_asked {machine : Machine} (asked : world.aborting = true) :
    step setting ⟨world, .running machine chain⟩ =
      finish ⟨world, machine⟩ (.error .aborted) chain := by
  have stops (around : Surroundings) :
      Act.step around ⟨world, machine⟩ = .error (.fault .aborted) ⟨world, machine⟩ := by
    apply bind_of_error
    simp only [Act.observe, asked, if_true]
  simp only [step, stops, afterAct]

theorem hasGlobals_step (setting : Setting) {execution : Execution}
    (asked : execution.world.aborting = true) :
    (step setting execution).HasGlobals execution.world.globals := by
  obtain ⟨world, control⟩ := execution
  cases control with
  | running machine chain =>
    rw [step_asked asked]
    exact hasGlobals_finish _ _ chain
  | native task caller chain =>
    cases task with
    | call request => exact hasGlobals_call request
    | invoke callee context => exact hasGlobals_invoke callee context
    | routine context program => exact hasGlobals_routine context program
    | answer result => exact hasGlobals_deliver result

variable {before after start execution : Execution}

theorem Shift.asked (shift : Shift before after) (asked : before.world.aborting = true) :
    after.world.aborting = true := by
  cases shift with
  | stays follows => exact follows.aborting asked
  | enters function station serves idle follows => exact follows.aborting asked
  | leaves world station follows released =>
    rw [released]
    cases station.serves with
    | none => exact follows.aborting asked
    | some function => exact follows.aborting asked

/-- A later state of a run that has been asked to stop: the request stands, globals are what they
were, and a machine about to begin an instruction stops instead and leaves everything as it is. -/
structure Halting (setting : Setting) (asked later : Execution) : Prop where
  stands : later.world.aborting = true
  globals : later.world.globals = asked.world.globals
  begins : ∀ machine chain, later.control = .running machine chain →
    step setting later = finish ⟨later.world, machine⟩ (.error .aborted) chain

theorem halting_reaches (asked : start.world.aborting = true)
    (reached : Reaches setting start execution) : Halting setting start execution := by
  have stands : execution.world.aborting = true ∧ execution.world.globals = start.world.globals := by
    induction reached with
    | refl => exact ⟨asked, rfl⟩
    | tail _ stepped ih =>
      have kept := hasGlobals_step setting ih.1
      rw [stepped] at kept
      exact ⟨(shift_step stepped).asked ih.1, kept.trans ih.2⟩
  refine ⟨stands.1, stands.2, ?_⟩
  intro machine chain running
  obtain ⟨world, control⟩ := execution
  cases running
  exact step_asked stands.1

/-- An act that completes an instruction ends a run with a fault, if at all. -/
theorem error_of_completion {pending : Pending} {result answer : Except Fault Value}
    {machine last : Machine} {later : World}
    (ended : afterAct chain (Act.resume setting.program.limits pending answer ⟨world, machine⟩) =
      .done later last result) : ∃ fault, result = .error fault := by
  cases resumed : Act.resume setting.program.limits pending answer ⟨world, machine⟩ with
  | ok next after =>
    rw [resumed] at ended
    cases next with
    | proceed => cases ended
    | halt => exact (Act.nears_resume resumed).elim
    | await task pending => cases ended
  | error stop after =>
    rw [resumed] at ended
    cases stop with
    | outOfRange => cases ended
    | fault fault =>
      cases chain with
      | nil =>
        cases ended
        exact ⟨fault, rfl⟩
      | cons caller chain => cases ended

theorem error_of_done {size : Nat} {later : World} {last : Machine} {result : Except Fault Value}
    (asked : execution.world.aborting = true)
    (sound : execution.control.Sound setting.program.limits size)
    (ended : step setting execution = .done later last result) : ∃ fault, result = .error fault := by
  have turn := turn_step setting execution
  rw [ended] at turn
  obtain ⟨world, control⟩ := execution
  generalize outcome : Progress.done later last result = progress at turn
  cases turn with
  | instruction =>
    rw [step_asked asked] at ended
    rename_i machine chain
    cases chain with
    | nil =>
      cases ended
      exact ⟨.aborted, rfl⟩
    | cons caller chain => cases ended
  | completion waits => exact error_of_completion outcome.symm
  | reply =>
    cases sound with
    | cons machine ready below => exact ready.elim
  | native natives => cases outcome
  | child natives => cases outcome

/-- Native code at work comes to an answer for the instruction that waits for it. -/
def Answered (setting : Setting) (execution : Execution) : Prop :=
  ∀ task caller chain, execution.control = .native task caller chain →
    ∃ answered, During setting { caller with natives := [] } chain execution answered ∧
      answered.Answers { caller with natives := [] } chain

def Fails (setting : Setting) (execution : Execution) : Prop :=
  ∃ last world machine fault, Reaches setting execution last ∧
    step setting last = .done world machine (.error fault)

theorem Fails.of_reaches (reached : Reaches setting start execution)
    (fails : Fails setting execution) : Fails setting start := by
  obtain ⟨last, world, machine, fault, later, ended⟩ := fails
  exact ⟨last, world, machine, fault, reached.trans later, ended⟩

/-- An execution that has been asked to stop, with native code that always answers. -/
structure Doomed (setting : Setting) (size : Nat) (execution : Execution) : Prop where
  asked : execution.world.aborting = true
  sound : execution.control.Sound setting.program.limits size
  answered : ∀ later, Reaches setting execution later → Answered setting later

variable {size : Nat}

theorem Doomed.reaches (doomed : Doomed setting size start)
    (reached : Reaches setting start execution) : Doomed setting size execution :=
  ⟨(halting_reaches doomed.asked reached).stands, sound_reaches doomed.sound reached,
    fun later after => doomed.answered later (reached.trans after)⟩

theorem fails_of_finish {active : Active} {fault : Fault} (doomed : Doomed setting size execution)
    (stepped : step setting execution = finish active (.error fault) chain)
    (below : ∀ caller rest, chain = caller :: rest → ∀ world task caller,
      Doomed setting size ⟨world, .native task caller rest⟩ →
        Fails setting ⟨world, .native task caller rest⟩) : Fails setting execution := by
  cases chain with
  | nil => exact ⟨execution, active.world, active.machine, fault, .refl, stepped⟩
  | cons caller rest =>
    have next : Reaches setting execution _ := .single stepped
    exact .of_reaches next (below caller rest rfl _ _ _ (doomed.reaches next))

theorem step_answered {machine : Machine} {pending : Pending} {used : Nat}
    (ready : pending.Ready used) (result : Except Fault Value) :
    step setting ⟨world, .native (.answer result) ⟨machine, pending, []⟩ chain⟩ =
      afterAct chain (Act.resume setting.program.limits pending result ⟨world, machine⟩) := by
  cases pending with
  | host => exact ready.elim
  | _ => rfl

/-- The instruction that waits is answered and completed. Then its machine stops, or the instruction
waits again and has less of its way before it. -/
theorem fails_native {task : Task} (chain : List Suspended)
    (below : ∀ caller rest, chain = caller :: rest → ∀ world task caller,
      Doomed setting size ⟨world, .native task caller rest⟩ →
        Fails setting ⟨world, .native task caller rest⟩)
    (doomed : Doomed setting size ⟨world, .native task caller chain⟩) :
    Fails setting ⟨world, .native task caller chain⟩ := by
  induction bound : caller.pending.remaining using Nat.strongRecOn generalizing world task caller with
  | ind bound ih =>
  obtain ⟨answered, during, later, result, machine, rfl⟩ :=
    doomed.answered _ .refl task caller chain rfl
  have reached := reaches_of_during during
  have late := doomed.reaches reached
  apply Fails.of_reaches reached
  have stepped : step setting ⟨later, .native (.answer result) ⟨machine, caller.pending, []⟩ chain⟩ =
      afterAct chain
        (Act.resume setting.program.limits caller.pending result ⟨later, machine⟩) := by
    cases late.sound with
    | cons _ ready _ => exact step_answered ready result
  cases resumed : Act.resume setting.program.limits caller.pending result ⟨later, machine⟩ with
  | ok next after =>
    rw [resumed] at stepped
    cases next with
    | halt => exact (Act.nears_resume resumed).elim
    | proceed =>
      have next : Reaches setting _ _ := .single stepped
      have asked := (late.reaches next).asked
      exact .of_reaches next (fails_of_finish (late.reaches next) (step_asked asked) below)
    | await task pending =>
      have next : Reaches setting _ _ := .single stepped
      have fewer : pending.remaining < caller.pending.remaining := Act.nears_resume resumed
      exact .of_reaches next (ih _ (bound ▸ fewer) (late.reaches next) rfl)
  | error stop after =>
    rw [resumed] at stepped
    cases stop with
    | fault fault => exact fails_of_finish late stepped below
    | outOfRange =>
      have sane := sound_step late.sound
      rw [stepped] at sane
      exact sane.elim

/-- A machine that stops answers the one below, so the machines fail from the top to the bottom. -/
theorem fails_of_doomed (doomed : Doomed setting size execution) : Fails setting execution := by
  obtain ⟨world, control⟩ := execution
  have below (chain : List Suspended) : ∀ world task caller,
      Doomed setting size ⟨world, .native task caller chain⟩ →
        Fails setting ⟨world, .native task caller chain⟩ := by
    induction chain with
    | nil =>
      intro world task caller doomed
      apply fails_native [] _ doomed
      intro caller rest none
      cases none
    | cons held chain ih =>
      intro world task caller doomed
      apply fails_native (held :: chain) _ doomed
      intro caller rest same
      cases same
      exact ih
  cases control with
  | native task caller chain => exact below chain world task caller doomed
  | running machine chain =>
    apply fails_of_finish doomed (step_asked doomed.asked)
    intro caller rest same
    exact below rest

theorem exists_run_of_reaches {world : World} {machine : Machine} {result : Except Fault Value}
    (reached : Reaches setting start execution)
    (ended : step setting execution = .done world machine result) :
    ∃ fuel, run setting fuel start = .done world machine result := by
  induction reached using Relation.ReflTransGen.head_induction_on with
  | refl => exact ⟨1, by simp only [run, ended]⟩
  | head stepped _ ih =>
    obtain ⟨fuel, ran⟩ := ih
    exact ⟨fuel + 1, by simp only [run, stepped, ran]⟩

theorem run_of_reaches {fuel : Nat} {world : World} {machine : Machine} {result : Except Fault Value}
    (reached : Reaches setting start execution)
    (ended : run setting fuel start = .done world machine result) :
    ∃ left, run setting left execution = .done world machine result := by
  induction reached with
  | refl => exact ⟨fuel, ended⟩
  | tail _ stepped ih =>
    obtain ⟨left, ran⟩ := ih
    cases left with
    | zero => cases ran
    | succ left =>
      refine ⟨left, ?_⟩
      simp only [run, stepped] at ran
      exact ran

/-- A run does not end before native code above which it goes on has its answer. -/
theorem exists_answer {world : World} {machine : Machine} {result : Except Fault Value} (fuel : Nat)
    (under : Under setting.program.limits caller chain start.control)
    (ended : run setting fuel start = .done world machine result) :
    ∃ answered, During setting caller chain start answered ∧ answered.Answers caller chain := by
  induction fuel generalizing start with
  | zero => cases ended
  | succ fuel ih =>
    by_cases answered : start.Answers caller chain
    · exact ⟨start, .refl, answered⟩
    · obtain ⟨middle, next, kept⟩ := under_turn (turn_step setting start) under answered
      simp only [run, next] at ended
      obtain ⟨last, during, answers⟩ := ih kept ended
      exact ⟨last, .head ⟨answered, next⟩ during, answers⟩

end Execution

end ScriptMachine
