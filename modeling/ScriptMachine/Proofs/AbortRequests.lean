import ScriptMachine.Proofs.Aborting

/-! What becomes of a request to stop. A run that has been asked to stop takes the request with it; a
call that the host makes leaves it behind, to whatever is executed next. -/

namespace ScriptMachine.Session

open Execution

variable {session after : Session} {fuel : Nat} {deadline : Deadline} {ending : Ending}

theorem run_cases (done : run fuel deadline session = .ok ending after) :
    (∃ fault, session.startMachine deadline = .error fault ∧
      after = session.settle session.world session.machine ∧
      ending = after.ending (.error fault)) ∨
    ∃ machine world last result, session.startMachine deadline = .ok machine ∧
      Execution.run (session.setting []) fuel ⟨session.world, .running machine []⟩ =
        .done world last result ∧
      after = session.settle world last ∧ ending = after.ending result := by
  unfold run at done
  split at done
  next fault failed =>
    cases done
    exact .inl ⟨fault, failed, rfl, rfl⟩
  next machine started =>
    split at done
    · cases done
    next world last result _ ended =>
      cases done
      exact .inr ⟨machine, world, last, result, started, ended, rfl, rfl⟩
    · cases done
    · cases done

theorem run_failed {machine last : Machine} {world : World} {fault : Fault}
    (started : session.startMachine deadline = .ok machine)
    (ended : Execution.run (session.setting []) fuel ⟨session.world, .running machine []⟩ =
      .done world last (.error fault)) (free : fault ≠ .cellHeld) :
    run fuel deadline session =
      .ok (.failed ⟨fault, (session.settle world last).machine.trace session.program⟩)
        (session.settle world last) := by
  simp only [run, started, ended]
  split
  next same =>
    cases same
    exact absurd rfl free
  next same =>
    cases same
    rfl
  next impossible => cases impossible
  next impossible => cases impossible

/-- The run that follows is not stopped by a request made before it. -/
theorem observe_startMachine {machine : Machine} (clear : session.world.aborting = false)
    (started : session.startMachine .unlimited = .ok machine) :
    Act.observe ⟨session.world, machine⟩ = .ok () ⟨session.world, machine⟩ := by
  have unlimited : machine.deadline = .unlimited :=
    congrArg Station.deadline (station_startMachine started)
  exact Act.observe_timely clear (machine.expiry?_of_unlimited unlimited _)

theorem sound_started {machine : Machine} {execution : Execution}
    (started : session.startMachine deadline = .ok machine)
    (reached : Reaches (session.setting []) ⟨session.world, .running machine []⟩ execution) :
    execution.control.Sound (session.setting []).program.limits session.machine.stack.size := by
  have begins : (Execution.mk session.world (.running machine [])).control.Sound
      (session.setting []).program.limits session.machine.stack.size :=
    ⟨sound_startMachine started, .nil⟩
  exact sound_reaches begins reached

/-- The end of a run that has been asked to stop in a state it has passed through. -/
theorem failed_of_asked {machine : Machine} {execution : Execution}
    (started : session.startMachine deadline = .ok machine)
    (reached : Reaches (session.setting []) ⟨session.world, .running machine []⟩ execution)
    (asked : execution.world.aborting = true)
    (done : run fuel deadline session = .ok ending after) :
    (∃ failure, ending = .failed failure) ∧ after.world.globals = execution.world.globals ∧
      ∃ last world final result, Reaches (session.setting []) execution last ∧
        step (session.setting []) last = .done world final result ∧
        after.world = { world with aborting := false } := by
  rcases run_cases done with ⟨fault, failed, -⟩ | ⟨other, world, final, result, begun, ended, rfl, rfl⟩
  · rw [started] at failed
    cases failed
  · rw [started] at begun
    cases begun
    obtain ⟨left, rest⟩ := run_of_reaches reached ended
    obtain ⟨last, later, stops⟩ := reaches_of_done rest
    have halting := halting_reaches asked later
    have sound := sound_started started (reached.trans later)
    obtain ⟨fault, rfl⟩ := error_of_done halting.stands sound stops
    have globals := hasGlobals_step (session.setting []) halting.stands
    rw [stops] at globals
    exact ⟨⟨_, rfl⟩, globals.trans halting.globals, last, world, final, _, later, stops, rfl⟩

/-- A request to stop is final for the run it hits, whenever and wherever it is made. No machine
begins another instruction, whatever host programs make of the faults they see; the run returns with a
failure if native code does not go on for ever, and never with success; what was done before remains
done. When a run has returned nobody is asked to stop any more, and the next one begins. -/
theorem abort_is_final (session : Session) (deadline : Deadline) :
    (∀ fuel ending after, run fuel deadline session = .ok ending after →
      (session.world.aborting = true → ∃ failure, ending = .failed failure) ∧
      after.world.aborting = false ∧
      ∀ machine, after.startMachine .unlimited = .ok machine →
        Act.observe ⟨after.world, machine⟩ = .ok () ⟨after.world, machine⟩) ∧
    ∀ machine execution, session.startMachine deadline = .ok machine →
      Reaches (session.setting []) ⟨session.world, .running machine []⟩ execution →
      execution.world.aborting = true →
        (∀ later, Reaches (session.setting []) execution later →
          Halting (session.setting []) execution later) ∧
        (∀ fuel ending after, run fuel deadline session = .ok ending after →
          (∃ failure, ending = .failed failure) ∧ after.world.globals = execution.world.globals ∧
            ∃ last world final result, Reaches (session.setting []) execution last ∧
              step (session.setting []) last = .done world final result ∧
              after.world = { world with aborting := false }) ∧
        ((∀ later, Reaches (session.setting []) execution later →
            Answered (session.setting []) later) →
          ∃ fuel, (∃ failure after, run fuel deadline session = .ok (.failed failure) after) ∨
            run fuel deadline session = .error (.fault .cellHeld) session) := by
  constructor
  · intro fuel ending after done
    have clear : after.world.aborting = false := by
      rcases run_cases done with ⟨_, _, rfl, _⟩ | ⟨_, _, _, _, _, _, rfl, _⟩
      · rfl
      · rfl
    refine ⟨?_, clear, fun machine started => observe_startMachine clear started⟩
    intro asked
    rcases run_cases done with ⟨fault, _, _, rfl⟩ | ⟨machine, _, _, _, started, _⟩
    · exact ⟨_, rfl⟩
    · exact (failed_of_asked started .refl asked done).1
  · intro machine execution started reached asked
    refine ⟨fun later onward => halting_reaches asked onward, ?_, ?_⟩
    · intro fuel ending after done
      exact failed_of_asked started reached asked done
    · intro answered
      have doomed : Doomed (session.setting []) session.machine.stack.size execution :=
        ⟨asked, sound_started started reached, answered⟩
      obtain ⟨last, world, final, fault, onward, ended⟩ := fails_of_doomed doomed
      obtain ⟨fuel, ran⟩ := exists_run_of_reaches (reached.trans onward) ended
      refine ⟨fuel, ?_⟩
      by_cases held : fault = .cellHeld
      · subst held
        exact .inr (by simp only [run, started, ran])
      · exact .inl ⟨_, _, run_failed started ran held⟩

theorem answered_of_done {setting : Setting} {start later : Execution} {world : World}
    {machine : Machine} {result : Except Fault Value}
    (ended : Execution.run setting fuel start = .done world machine result)
    (reached : Reaches setting start later) : Answered setting later := by
  obtain ⟨left, rest⟩ := run_of_reaches reached ended
  intro task caller chain same
  have under : Under setting.program.limits { caller with natives := [] } chain later.control := by
    rw [same]
    exact .native ⟨.refl _, rfl, List.nil_suffix⟩
  exact exists_answer left under rest

/-- Sets the first global, and has the host try a function that asks for a stop and would set the
second one. -/
def stoppingBlueprint : Blueprint where
  main :=
    { instructions := assemble [⟨.pushTrue, []⟩, ⟨.setGlobal, [0]⟩, ⟨.constant, [0]⟩, ⟨.constant, [1]⟩,
        ⟨.call, [1, 0, 0, 0]⟩, ⟨.setGlobal, [1]⟩, ⟨.suspend, []⟩] }
  constants := [
    .host ⟨"try", "try", false⟩,
    .function { instructions := assemble [⟨.constant, [0]⟩, ⟨.call, [0, 0, 0, 0]⟩, ⟨.setGlobal, [1]⟩,
      ⟨.ret, [0]⟩] } []]
  limits := { stackSize := 4, globalsSize := 2 }

/-- The host asks for a stop when it is called without arguments, and otherwise tries its first. -/
def stopping : Session :=
  (create (fun _ context =>
    if context.arguments.isEmpty then .abort (.reply (.ok (.bool true))) else .attempt context)
    stoppingBlueprint).toOption.get (by decide +kernel)

def stoppingMachine : Machine := (stopping.startMachine .unlimited).toOption.get (by decide +kernel)

theorem stopping_asked : (match Execution.run (stopping.setting []) 18
    ⟨stopping.world, .running stoppingMachine []⟩ with
    | .next execution => execution.world.aborting
    | _ => false) = true := by decide +kernel

theorem stopping_fails : (match Execution.run (stopping.setting []) 40
    ⟨stopping.world, .running stoppingMachine []⟩ with
    | .done _ _ (.error .aborted) => true
    | _ => false) = true := by decide +kernel

theorem abort_is_final_stopping :
    ∃ machine execution, stopping.startMachine .unlimited = .ok machine ∧
      Reaches (stopping.setting []) ⟨stopping.world, .running machine []⟩ execution ∧
      execution.world.aborting = true ∧
      (∀ later, Reaches (stopping.setting []) execution later →
        Halting (stopping.setting []) execution later) ∧
      (∃ failure after, run 40 .unlimited stopping = .ok (.failed failure) after ∧
        after.world.globals = execution.world.globals ∧ after.world.aborting = false) ∧
      ∃ fuel, (∃ failure after, run fuel .unlimited stopping = .ok (.failed failure) after) ∨
        run fuel .unlimited stopping = .error (.fault .cellHeld) stopping := by
  have started : stopping.startMachine .unlimited = .ok stoppingMachine := Except.eq_ok_get _
  obtain ⟨returns, final⟩ := abort_is_final stopping .unlimited
  have asked := stopping_asked
  split at asked
  next execution ran =>
    have reached := reaches_of_run 18 ran
    obtain ⟨halting, failed, ends⟩ := final stoppingMachine execution started reached asked
    have fails := stopping_fails
    split at fails
    next world last ended =>
      have done := run_failed started ended (by simp)
      obtain ⟨⟨failure, same⟩, globals, -⟩ := failed _ _ _ done
      refine ⟨stoppingMachine, execution, started, reached, asked, halting, ?_, ?_⟩
      · exact ⟨failure, _, same ▸ done, globals, (returns _ _ _ done).2.1⟩
      · apply ends
        intro later onward
        exact answered_of_done ended (reached.trans onward)
    · cases fails
  · cases asked

section Calls

variable {called : Session} {held : List Value} {request : Request}

/-- A call has come back to the host, with a value or with a fault. -/
def Returns (session : Session) (fuel : Nat) (held : List Value) (request : Request)
    (called : Session) : Prop :=
  (∃ value, call fuel held request session = .ok value called) ∨
    ∃ fault, call fuel held request session = .error (.fault fault) called

theorem Returns.ended (returned : session.Returns fuel held request called) :
    ∃ world machine result,
      Execution.run (session.setting held) fuel (session.calling request) =
        .done world machine result ∧
      called = { session with world, machine } := by
  rcases returned with ⟨value, done⟩ | ⟨fault, done⟩
  · unfold call at done
    split at done
    next world machine value ended =>
      cases done
      exact ⟨world, machine, _, ended, rfl⟩
    · cases done
    · cases done
    · cases done
  · unfold call at done
    split at done
    · cases done
    next world machine fault ended =>
      cases done
      exact ⟨world, machine, _, ended, rfl⟩
    · cases done
    · cases done

theorem Returns.asked {execution : Execution} (returned : session.Returns fuel held request called)
    (reached : Reaches (session.setting held) (session.calling request) execution)
    (asked : execution.world.aborting = true) : called.world.aborting = true := by
  obtain ⟨world, machine, result, ended, rfl⟩ := returned.ended
  obtain ⟨left, rest⟩ := run_of_reaches reached ended
  obtain ⟨last, later, stops⟩ := reaches_of_done rest
  have shifts := shifts_turn (turn_step (session.setting held) last)
  rw [stops] at shifts
  exact shifts.1.aborting (halting_reaches asked later).stands

theorem run_asked (asked : session.world.aborting = true)
    (fits : session.mainCode.frameSize ≤ session.machine.stack.size) (spare : Nat)
    (deadline : Deadline) :
    ∃ failure after, run (spare + 1) deadline session = .ok (.failed failure) after ∧
      failure.fault = .aborted ∧ after.world = { session.world with aborting := false } := by
  obtain ⟨machine, started⟩ := exists_startMachine fits deadline
  have ended : Execution.run (session.setting []) (spare + 1) ⟨session.world, .running machine []⟩ =
      .done session.world machine (.error .aborted) := by
    simp only [Execution.run, step_asked asked, finish]
  exact ⟨_, _, run_failed started ended (by simp), rfl, rfl⟩

end Calls

/-- A request to stop that is made during a call of the host outlives the call, and it is the next
execution that is stopped: a run fails before its first instruction and takes the request with it, and
in a call no function begins an instruction and the request goes on to the execution after it. -/
theorem abort_outlives_calls (session : Session) (fuel : Nat) (held : List Value) (request : Request)
    (execution : Execution)
    (reached : Reaches (session.setting held) (session.calling request) execution)
    (asked : execution.world.aborting = true) (called : Session)
    (returned : session.Returns fuel held request called) :
    called.world.aborting = true ∧
    (∀ spare deadline, called.mainCode.frameSize ≤ called.machine.stack.size →
      ∃ failure after, run (spare + 1) deadline called = .ok (.failed failure) after ∧
        failure.fault = .aborted ∧ after.world = { called.world with aborting := false }) ∧
    ∀ held request,
      (∀ later, Reaches (called.setting held) (called.calling request) later →
        Halting (called.setting held) (called.calling request) later) ∧
      ∀ spare after, called.Returns spare held request after → after.world.aborting = true := by
  have stands := returned.asked reached asked
  refine ⟨stands, ?_, ?_⟩
  · intro spare deadline fits
    exact run_asked stands fits spare deadline
  · intro held request
    refine ⟨?_, ?_⟩
    · intro later onward
      exact halting_reaches stands onward
    · intro spare after again
      exact again.asked .refl stands

/-- A session with a main function that stops at once, whose host asks for a stop whenever it is
called. -/
def interrupting : Session :=
  (create (fun _ _ => .abort (.reply (.ok (.bool true))))
    { limits := { stackSize := 2, globalsSize := 0 } }).toOption.get (by decide +kernel)

def interruption : Request := { callee := .host 0 ⟨"stop", "abort", false⟩ }

def interrupted : Session := interrupting.left (call 8 [] interruption)

theorem interrupting_asked : (match Execution.run (interrupting.setting []) 3
    (interrupting.calling interruption) with
    | .next execution => execution.world.aborting
    | _ => false) = true := by decide +kernel

theorem interrupting_returns : ∃ value, call 8 [] interruption interrupting = .ok value interrupted := by
  have succeeds : (EStateM.run' (call 8 [] interruption) interrupting).isSome = true := by
    decide +kernel
  obtain ⟨value, called, done⟩ := exists_ok succeeds
  exact ⟨value, done.trans (congrArg _ (left_of_ok done).symm)⟩

theorem abort_outlives_calls_interrupting :
    interrupting.Returns 8 [] interruption interrupted ∧ interrupted.world.aborting = true ∧
      ∃ failure after, run 1 .unlimited interrupted = .ok (.failed failure) after ∧
        failure.fault = .aborted ∧ after.world = { interrupted.world with aborting := false } := by
  have returned : interrupting.Returns 8 [] interruption interrupted := .inl interrupting_returns
  have asked := interrupting_asked
  split at asked
  next execution ran =>
    obtain ⟨stands, stops, -⟩ := abort_outlives_calls interrupting 8 [] interruption execution
      (reaches_of_run 3 ran) asked interrupted returned
    exact ⟨returned, stands, stops 0 .unlimited (by decide +kernel)⟩
  · cases asked

theorem unasked_completes : (match run 1 .unlimited
    { interrupted with world := { interrupted.world with aborting := false } } with
    | .ok .completed _ => true
    | _ => false) = true := by decide +kernel

/-- The run after the call fails, though it would have completed had nobody been asked to stop. -/
theorem abort_of_call_stops_next_run :
    interrupting.Returns 8 [] interruption interrupted ∧
    (∃ failure after, run 1 .unlimited interrupted = .ok (.failed failure) after ∧
      failure.fault = .aborted) ∧
    ∃ after, run 1 .unlimited
      { interrupted with world := { interrupted.world with aborting := false } } =
        .ok .completed after := by
  have stands : interrupted.world.aborting = true := by decide +kernel
  obtain ⟨failure, after, failed, fault, -⟩ :=
    run_asked stands (by decide +kernel) 0 .unlimited
  refine ⟨.inl interrupting_returns, ⟨failure, after, failed, fault⟩, ?_⟩
  have completes := unasked_completes
  split at completes
  next after done => exact ⟨after, done⟩
  · cases completes

end ScriptMachine.Session
