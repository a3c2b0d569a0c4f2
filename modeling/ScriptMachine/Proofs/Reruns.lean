import ScriptMachine.Proofs.SessionHistories

/-! Running a session again. Whatever it did before, a run is like the first run of a new session with
the same values, except that a main function too large for the stack leaves the budget that an
earlier call has left. -/

namespace ScriptMachine.Session

variable {session : Session}

/-- A run starts from the code and from the size of the stack only. -/
theorem startMachine_anew (slots : session.machine.stack.size = session.program.limits.stackSize)
    (deadline : Deadline) : session.anew.startMachine deadline = session.startMachine deadline := by
  have same : session.anew.machine.stack.size = session.machine.stack.size := by
    rw [slots]
    exact Array.size_replicate
  unfold startMachine
  rw [same]
  rfl

/-- Both start the same machine, and the one that was there is seen again only if nothing came of it. -/
theorem run_anew (slots : session.machine.stack.size = session.program.limits.stackSize)
    (fits : session.mainCode.frameSize ≤ session.program.limits.stackSize) (fuel : Nat)
    (deadline : Deadline) :
    run fuel deadline session.anew =
      match run fuel deadline session with
      | .ok ending after => .ok ending after
      | .error reason after => .error reason { after with machine := session.anew.machine } := by
  obtain ⟨machine, started⟩ := exists_startMachine (slots ▸ fits) deadline
  have again := (startMachine_anew slots deadline).trans started
  unfold run
  rw [started, again]
  dsimp only
  have same : Execution.run (session.anew.setting []) fuel ⟨session.anew.world, .running machine []⟩ =
      Execution.run (session.setting []) fuel ⟨session.world, .running machine []⟩ := rfl
  rw [same]
  cases Execution.run (session.setting []) fuel ⟨session.world, .running machine []⟩ with
  | next execution => rfl
  | broken => rfl
  | done world last result => cases result with
    | ok value => rfl
    | error fault => cases fault with
      | _ => rfl

/-- A main function that does not fit on the stack ends the run before the machine is touched. -/
theorem run_large (large : session.machine.stack.size < session.mainCode.frameSize) (fuel : Nat)
    (deadline : Deadline) :
    run fuel deadline session = .ok
      (.failed ⟨.stackOverflow, session.machine.trace session.program⟩)
      (session.settle session.world session.machine) := by
  have refused : session.startMachine deadline = .error .stackOverflow := if_pos large
  unfold run
  rw [refused]
  rfl

/-- From rest, such a run leaves the budget alone, and with it the only trace of what was done
before. -/
theorem AtRest.run_large (rest : session.AtRest)
    (large : session.program.limits.stackSize < session.mainCode.frameSize) (fuel : Nat)
    (deadline : Deadline) :
    ∃ first : Session,
      run fuel deadline session.anew = .ok (.failed ⟨.stackOverflow, []⟩) first ∧
      first.machine.budget = Machine.initialBudget session.program.limits ∧
      run fuel deadline session = .ok (.failed ⟨.stackOverflow, []⟩)
        { first with machine := { first.machine with budget := session.machine.budget } } := by
  refine ⟨session.anew.settle session.world session.anew.machine, ?_, rfl, ?_⟩
  · have size : session.anew.machine.stack.size = session.program.limits.stackSize :=
      Array.size_replicate
    exact Session.run_large (size ▸ large) fuel deadline
  · have unused := rest.unused large
    have trace : session.machine.trace session.program = [] := by
      rw [unused]
      rfl
    rw [Session.run_large (rest.slots ▸ large) fuel deadline, trace]
    exact congrArg (fun machine => EStateM.Result.ok _ (session.settle session.world machine)) unused

/-- Whatever has happened to a session, running it gives what the first run of a new machine would
give with the same program, values and request to stop: the same ending, the same trace and the same
session. Where the main function does not fit on the stack, both fail at once and leave machines that
differ in their budgets only: the new one has the whole allowance, the old one what was left of it. -/
theorem rerun_equals_first_run (session : Session) (arises : session.Arises) (fuel : Nat)
    (deadline : Deadline) :
    (session.mainCode.frameSize ≤ session.program.limits.stackSize →
      (∀ ending after, run fuel deadline session = .ok ending after ↔
        run fuel deadline session.anew = .ok ending after) ∧
      ∀ reason after, run fuel deadline session = .error reason after →
        run fuel deadline session.anew =
          .error reason { after with machine := session.anew.machine }) ∧
    (session.program.limits.stackSize < session.mainCode.frameSize →
      ∃ first : Session,
        run fuel deadline session.anew = .ok (.failed ⟨.stackOverflow, []⟩) first ∧
        first.machine.budget = Machine.initialBudget session.program.limits ∧
        run fuel deadline session = .ok (.failed ⟨.stackOverflow, []⟩)
          { first with machine := { first.machine with budget := session.machine.budget } }) := by
  have rest := arises.atRest
  refine ⟨?_, fun large => rest.run_large large fuel deadline⟩
  intro fits
  have same := run_anew rest.slots fits fuel deadline
  refine ⟨?_, ?_⟩
  · intro ending after
    rw [same]
    cases run fuel deadline session with
    | ok known later => rfl
    | error reason later => simp
  · intro reason after failed
    rw [same, failed]

/-- A main function with two locals, beside a function that makes an array. -/
def twoLocals (stackSize : Nat) : Blueprint where
  main := { instructions := assemble [⟨.suspend, []⟩], locals := 2 }
  constants := [.function { instructions := assemble [⟨.array, [0]⟩, ⟨.pop, []⟩, ⟨.ret, [0]⟩] } []]
  limits := { stackSize, globalsSize := 0, maxAllocations := 5 }

/-- A session whose stack just holds the two locals. -/
def roomy : Session := (create .standard (twoLocals 2)).toOption.get (by decide +kernel)

/-- A session whose stack is one slot short of them. -/
def tight : Session := (create .standard (twoLocals 1)).toOption.get (by decide +kernel)

/-- What a call of the constant leaves of a session. -/
def afterCall (session : Session) : Session := session.left (call 8 [] { callee := .function 1 })

theorem arises_roomy : roomy.afterCall.Arises :=
  (Arises.created (Except.eq_ok_get _)).left_call (by decide +kernel)

theorem arises_tight : tight.afterCall.Arises :=
  (Arises.created (Except.eq_ok_get _)).left_call (by decide +kernel)

theorem rerun_equals_first_run_afterCall :
    (roomy.afterCall.machine.budget = 5 ∧ roomy.afterCall.anew.machine.budget = 6 ∧
      ∃ ending after, run 2 .unlimited roomy.afterCall = .ok ending after ∧
        run 2 .unlimited roomy.afterCall.anew = .ok ending after) ∧
    ∃ first after, run 2 .unlimited tight.afterCall.anew = .ok (.failed ⟨.stackOverflow, []⟩) first ∧
      run 2 .unlimited tight.afterCall = .ok (.failed ⟨.stackOverflow, []⟩) after := by
  obtain ⟨fitting, -⟩ := rerun_equals_first_run roomy.afterCall arises_roomy 2 .unlimited
  obtain ⟨-, overflowing⟩ := rerun_equals_first_run tight.afterCall arises_tight 2 .unlimited
  refine ⟨⟨by decide +kernel, by decide +kernel, ?_⟩, ?_⟩
  · obtain ⟨agree, -⟩ := fitting (by decide +kernel)
    have succeeds : (EStateM.run' (run 2 .unlimited) roomy.afterCall).isSome = true := by
      decide +kernel
    obtain ⟨ending, after, ended⟩ := exists_ok succeeds
    exact ⟨ending, after, ended, (agree _ _).mp ended⟩
  · obtain ⟨first, new, -, old⟩ := overflowing (by decide +kernel)
    exact ⟨first, _, new, old⟩

/-- The session has spent one allocation, and the run that fails does not give it back, though a new
machine would have had it. -/
theorem rerun_keeps_spent_budget :
    tight.afterCall.Arises ∧ ∃ first after,
      run 2 .unlimited tight.afterCall.anew = .ok (.failed ⟨.stackOverflow, []⟩) first ∧
      run 2 .unlimited tight.afterCall = .ok (.failed ⟨.stackOverflow, []⟩) after ∧
      first.machine.budget = 6 ∧ after.machine.budget = 5 := by
  obtain ⟨first, new, whole, old⟩ :=
    arises_tight.atRest.run_large (by decide +kernel) 2 .unlimited
  have allowed : Machine.initialBudget tight.afterCall.program.limits = 6 := by decide +kernel
  have left : tight.afterCall.machine.budget = 5 := by decide +kernel
  refine ⟨arises_tight, first, _, new, old, whole.trans allowed, ?_⟩
  dsimp only
  exact left

end ScriptMachine.Session
