import ScriptMachine.Proofs.SessionHistories
import ScriptMachine.Proofs.DepthLimits

/-! No function is run by two native-side calls at once. A second call is refused before anything is
done for it, and when a call is answered every busy flag is what it was when the call was made. -/

namespace ScriptMachine

/-- The function that a request asks to run, on its own or bound to a receiver. -/
def Request.function? (request : Request) : Option Ref :=
  match request.callee with
  | .function ref | .bound _ _ (.function ref) _ => some ref
  | _ => none

namespace Execution

variable {setting : Setting} {world : World} {task : Task} {caller : Suspended}
  {chain : List Suspended} {request : Request} {ref : Ref} {after : Execution}

theorem enterChild_busy (arguments : Array Value) (keywords : Table Value)
    (busy : (world.store.function ref).busy = true)
    (shallow : caller.machine.nesting < setting.program.limits.maxNestedCalls) :
    enterChild setting world ref arguments keywords caller chain =
      answer world (.error .functionRunning) caller chain := by
  have taken : world.store.isIdle ref = false := by
    rw [← Bool.not_eq_true, Store.isIdle_eq_true_iff]
    rintro ⟨function, found, idle⟩
    simp only [Store.function, found, idle] at busy
    cases busy
  unfold enterChild
  rw [if_neg (Nat.not_le.mpr shallow), if_pos (by simp [taken])]

theorem call_busy (runs : Runs setting world request caller chain)
    (asked : request.function? = some ref) (busy : (world.store.function ref).busy = true)
    (shallow : caller.machine.nesting < setting.program.limits.maxNestedCalls) :
    call setting world request caller chain =
      answer world (.error .functionRunning)
        { caller with natives := .holding request.callee :: caller.natives } chain := by
  cases runs with
  | plain function callee receiver =>
    simp only [Request.function?, callee, Option.some.injEq] at asked
    subst asked
    simp only [call, receiver, callPlain, callee]
    exact enterChild_busy _ _ busy shallow
  | bound id hold function subject held callee receiver there =>
    simp only [Request.function?, callee, Option.some.injEq] at asked
    subst asked
    rw [callee] at there
    simp only [call, receiver, callPlain, callee, there]
    exact enterChild_busy _ _ busy shallow
  | method function subject callee receiver =>
    simp only [Request.function?, callee, Option.some.injEq] at asked
    subst asked
    simp only [call, receiver, callee]
    exact enterChild_busy _ _ busy shallow

/-- The machines that serve functions are the same when native code is answered. -/
theorem serving_of_answers
    (during : During setting caller chain ⟨world, .native task caller chain⟩ after)
    (answered : after.Answers caller chain) :
    after.control.serving = (Control.native task caller chain).serving := by
  have under := under_during (.native (.refl caller)) during
  obtain ⟨later, result, machine, rfl⟩ := answered
  have place : machine.station = caller.machine.station := under.awaits.machine.station
  simp only [Control.serving, Control.stations, Control.active, Control.waiting, place]

theorem Guarded.restored (guarded : Guarded ⟨world, .native task caller chain⟩)
    (during : During setting caller chain ⟨world, .native task caller chain⟩ after)
    (answered : after.Answers caller chain) (ref : Ref) :
    (after.world.store.function ref).busy = (world.store.function ref).busy := by
  have later := guarded.reaches (reaches_of_during during)
  rw [Bool.eq_iff_iff, later.busy_iff, serving_of_answers during answered]
  exact (guarded.busy_iff ref).symm

end Execution

namespace Session

/-- The first states of what a session can be asked to do: to run its main function or to make a
call. -/
inductive Begins (session : Session) : Setting → Execution → Prop where
  | run {deadline : Deadline} {machine : Machine}
      (started : session.startMachine deadline = .ok machine) :
      Begins session (session.setting []) ⟨session.world, .running machine []⟩
  | call (held : List Value) (request : Request) :
      Begins session (session.setting held) (session.calling request)

theorem AtRest.begins {session : Session} (rest : session.AtRest) {setting : Setting}
    {start : Execution} (begins : session.Begins setting start) : start.Guarded := by
  cases begins with
  | run started =>
    refine rest.guarded ?_
    simp [Control.serving, Control.stations, Control.active, Control.waiting,
      station_startMachine started]
  | call held request =>
    refine rest.guarded ?_
    simp [Control.serving, Control.stations, Control.active, Control.waiting, caller, rest.place]

open Execution

/-- Between the commands of a session no function is busy. While it runs or makes a call, a function
is busy exactly when one machine serves it, and none is served by two; a call of a busy function is
refused at once; and when a call has been answered, well or not, every function is as busy as it was
before. -/
theorem busy_flags_guard_calls (session : Session) (arises : session.Arises) :
    (∀ ref, (session.world.store.function ref).busy = false) ∧
    ∀ setting start, session.Begins setting start →
      ∀ execution, Reaches setting start execution →
        (∀ ref, execution.control.serving.count ref ≤ 1 ∧
          ((execution.world.store.function ref).busy = true ↔
            execution.control.serving.count ref = 1)) ∧
        (∀ world request caller chain ref,
          execution = ⟨world, .native (.call request) caller chain⟩ →
          Runs setting world request caller chain → request.function? = some ref →
          (world.store.function ref).busy = true →
          caller.machine.nesting < setting.program.limits.maxNestedCalls →
            step setting execution = .next ⟨world, .native (.answer (.error .functionRunning))
              { caller with natives := .holding request.callee :: caller.natives } chain⟩) ∧
        ∀ world task caller chain after, execution = ⟨world, .native task caller chain⟩ →
          During setting caller chain execution after → after.Answers caller chain →
            ∀ ref, (after.world.store.function ref).busy = (world.store.function ref).busy := by
  have rest := arises.atRest
  refine ⟨rest.idle, ?_⟩
  intro setting start begins execution reached
  have guarded := (rest.begins begins).reaches reached
  refine ⟨?_, ?_, ?_⟩
  · intro ref
    have most := List.nodup_iff_count_le_one.mp guarded.once ref
    refine ⟨most, ?_⟩
    rw [guarded.busy_iff, ← List.count_pos_iff]
    omega
  · rintro world request caller chain ref rfl runs asked busy shallow
    exact call_busy runs asked busy shallow
  · rintro world task caller chain after rfl during answered
    exact guarded.restored during answered

/-- A session with a function that has the host call what it is given, and gives it itself. -/
def reentrantBlueprint : Blueprint where
  constants := [
    .function { instructions := assemble [⟨.constant, [1]⟩, ⟨.callee, []⟩, ⟨.call, [1, 0, 0, 0]⟩,
      ⟨.ret, [1]⟩] } [],
    .host ⟨"apply", "apply", false⟩]
  limits := { stackSize := 4, globalsSize := 0 }

def reentrant : Session :=
  (create (fun _ context => .call (.applied context) [] .reply) reentrantBlueprint).toOption.get
    (by decide +kernel)

theorem arises_reentrant : reentrant.Arises := .created (Except.eq_ok_get _)

/-- The function runs, and calls itself by way of the host. -/
def reenters : Progress → Bool
  | .next ⟨world, .native (.call ⟨.function ref, none, _, _⟩) caller _⟩ =>
    ref == 1 && (world.store.function ref).busy && caller.machine.nesting < 64
  | _ => false

theorem reenters_seven : reenters (Execution.run (reentrant.setting []) 7
    (reentrant.calling { callee := .function 1 })) = true := by decide +kernel

theorem refused_fifteen : (match Execution.run (reentrant.setting []) 15
    (reentrant.calling { callee := .function 1 }) with
    | .done _ _ (.error .functionRunning) => true
    | _ => false) = true := by decide +kernel

theorem busy_flags_guard_calls_reentrant :
    reentrant.Arises ∧
    (∃ world request caller chain,
      Reaches (reentrant.setting []) (reentrant.calling { callee := .function 1 })
        ⟨world, .native (.call request) caller chain⟩ ∧
      (Control.native (.call request) caller chain).serving.count 1 = 1 ∧
      step (reentrant.setting []) ⟨world, .native (.call request) caller chain⟩ =
        .next ⟨world, .native (.answer (.error .functionRunning))
          { caller with natives := .holding request.callee :: caller.natives } chain⟩) ∧
    ∃ world machine,
      During (reentrant.setting []) reentrant.caller [] (reentrant.calling { callee := .function 1 })
        ⟨world, .native (.answer (.error .functionRunning)) { machine, pending := .host } []⟩ ∧
      ∀ ref, (world.store.function ref).busy = (reentrant.world.store.function ref).busy := by
  obtain ⟨-, during⟩ := busy_flags_guard_calls reentrant arises_reentrant
  refine ⟨arises_reentrant, ?_, ?_⟩
  · have again := reenters_seven
    unfold reenters at again
    split at again
    next world ref arguments keywords caller chain ran =>
      simp only [Bool.and_eq_true, beq_iff_eq, decide_eq_true_eq] at again
      obtain ⟨⟨rfl, busy⟩, shallow⟩ := again
      have reached := reaches_of_run 7 ran
      obtain ⟨served, refused, -⟩ := during _ _ (.call [] _) _ reached
      refine ⟨world, _, caller, chain, reached, (served 1).2.mp busy, ?_⟩
      exact refused world _ caller chain 1 rfl (.plain 1 rfl rfl) rfl busy shallow
    · cases again
  · have ends := refused_fifteen
    split at ends
    next world machine ended =>
      have answered := (during_calling ended).2
      obtain ⟨-, -, restored⟩ := during _ _ (.call [] { callee := .function 1 }) _ .refl
      exact ⟨world, machine, answered,
        restored _ _ _ _ _ rfl answered ⟨world, _, machine, rfl⟩⟩
    · cases ends

end Session

end ScriptMachine
