import ScriptMachine.Proofs.ExecutionSafety
import ScriptMachine.Proofs.Stations

/-! A native-side call and the machine that waits for it. Whatever the call does, on however many
machines, the one that waits is as it was when the answer comes, except that its budget may be
smaller. -/

namespace ScriptMachine

namespace Machine

theorem budget_le_of_moves {limits : Limits} {before after : Machine}
    (moved : Moves limits before after) : after.budget ≤ before.budget := by
  induction moved with
  | refl => exact Int.le_refl _
  | @tail middle after _ last ih =>
    refine Int.le_trans ?_ ih
    cases last with
    | spend => exact Int.sub_le_self _ (by decide)
    | leave result allowed =>
      obtain ⟨frame, caller, callers, top, -, -⟩ := popStop?_eq_none allowed
      have same : (middle.popFrame result).budget = middle.budget := by
        rw [middle.popFrame_eq result top]
      exact Int.le_of_eq same
    | _ => exact Int.le_refl _

/-- A machine that has lost some of its budget and is otherwise the same. -/
structure Spent (before after : Machine) : Prop where
  same : after = { before with budget := after.budget }
  budget : after.budget ≤ before.budget

namespace Spent

variable {before middle after : Machine}

theorem refl (machine : Machine) : machine.Spent machine := ⟨rfl, Int.le_refl _⟩

theorem scene (spent : before.Spent after) : after.scene = before.scene := by
  rw [spent.same]
  rfl

theorem station (spent : before.Spent after) : after.station = before.station :=
  congrArg (fun scene => scene.setup.station) spent.scene

theorem withBudget (spent : before.Spent after) {budget : Int} (less : budget ≤ before.budget) :
    before.Spent { after with budget } := by
  refine ⟨?_, less⟩
  rw [spent.same]

end Spent

end Machine

/-- A waiting machine as it was, but for its budget. More native code may wait on it. -/
structure Suspended.Awaits (caller held : Suspended) : Prop where
  machine : caller.machine.Spent held.machine
  pending : held.pending = caller.pending
  natives : caller.natives <:+ held.natives

theorem Suspended.Awaits.refl (caller : Suspended) : caller.Awaits caller :=
  ⟨.refl _, rfl, List.suffix_refl _⟩

/-- The machines that have been made for native code are full-sized and have not used up the one
below. -/
inductive Under (limits : Limits) (caller : Suspended) (chain : List Suspended) : Control → Prop where
  | native {task : Task} {held : Suspended} (awaits : caller.Awaits held) :
      Under limits caller chain (.native task held chain)
  | running {machine : Machine} {inner : List Suspended} {held : Suspended}
      (sound : machine.Sound (max limits.stackSize 3))
      (waiting : Waiting limits (max limits.stackSize 3) inner)
      (less : machine.budget ≤ caller.machine.budget) (awaits : caller.Awaits held) :
      Under limits caller chain (.running machine (inner ++ held :: chain))
  | inside {task : Task} {top : Suspended} {inner : List Suspended} {held : Suspended}
      (waiting : Waiting limits (max limits.stackSize 3) (top :: inner))
      (less : top.machine.budget ≤ caller.machine.budget) (awaits : caller.Awaits held) :
      Under limits caller chain (.native task top (inner ++ held :: chain))

/-- Who waits, innermost first. -/
def Control.suspended : Control → List Suspended
  | .running _ chain => chain
  | .native _ caller chain => caller :: chain

theorem Under.suspended {limits : Limits} {caller : Suspended} {chain : List Suspended}
    {control : Control} (under : Under limits caller chain control) :
    ∃ inner held, control.suspended = inner ++ held :: chain ∧ caller.Awaits held := by
  cases under with
  | @native _ held awaits => exact ⟨[], held, rfl, awaits⟩
  | @running _ inner held _ _ _ awaits => exact ⟨inner, held, rfl, awaits⟩
  | @inside _ top inner held _ _ awaits => exact ⟨top :: inner, held, rfl, awaits⟩

theorem Under.length_lt {limits : Limits} {caller : Suspended} {chain : List Suspended}
    {control : Control} (under : Under limits caller chain control) :
    chain.length < control.suspended.length := by
  obtain ⟨inner, held, same, -⟩ := under.suspended
  rw [same, List.length_append, List.length_cons]
  omega

theorem Under.awaits {limits : Limits} {caller held : Suspended} {chain : List Suspended}
    {task : Task} (under : Under limits caller chain (.native task held chain)) :
    caller.Awaits held := by
  obtain ⟨inner, below, same, awaits⟩ := under.suspended
  cases inner with
  | nil =>
    cases same
    exact awaits
  | cons top inner =>
    have longer := congrArg List.length same
    simp only [Control.suspended, List.length_append, List.length_cons] at longer
    omega

namespace Execution

variable {limits : Limits} {setting : Setting} {caller held : Suspended}
  {inner chain : List Suspended}

/-- The native code that waits on a machine is about to get an answer. -/
def Answers (caller : Suspended) (chain : List Suspended) (execution : Execution) : Prop :=
  ∃ world result machine, execution = ⟨world, .native (.answer result) { caller with machine } chain⟩

theorem answers_of_awaits {world : World} {result : Except Fault Value} (awaits : caller.Awaits held)
    (answered : caller.natives = held.natives) :
    Answers caller chain ⟨world, .native (.answer result) held chain⟩ := by
  obtain ⟨machine, pending, natives⟩ := held
  cases awaits.pending
  cases answered
  exact ⟨world, result, machine, rfl⟩

/-- From one state to another while native code has no answer. -/
abbrev During (setting : Setting) (caller : Suspended) (chain : List Suspended) :
    Execution → Execution → Prop :=
  Relation.ReflTransGen fun before after =>
    ¬before.Answers caller chain ∧ step setting before = .next after

theorem slotsAbove_self (limits : Limits) (chain : List Suspended) :
    slotsAbove limits (max limits.stackSize 3) chain = max limits.stackSize 3 := by
  cases chain with
  | nil => rfl
  | cons caller chain => rfl

/-- A machine that has stopped above another one answers that one and gives its budget back. -/
theorem finish_cons {active : Active} (lowest : 0 < active.machine.stack.size)
    (result : Except Fault Value) (caller : Suspended) (chain : List Suspended) :
    ∃ answer, finish active result (caller :: chain) =
      .next ⟨active.world.release active.machine.serves, .native (.answer answer)
        { caller with machine := { caller.machine with budget := active.machine.budget } } chain⟩ := by
  obtain ⟨answer, -, -, same⟩ | ⟨missing, -⟩ := finish_cons_cases active result caller chain
  · exact ⟨answer, same⟩
  · exact absurd (Array.getElem?_eq_none_iff.mp missing) (Nat.not_le.mpr lowest)

theorem under_finish {active : Active} (result : Except Fault Value)
    (sound : active.machine.Sound (max limits.stackSize 3))
    (waiting : Waiting limits (max limits.stackSize 3) inner)
    (less : active.machine.budget ≤ caller.machine.budget) (awaits : caller.Awaits held) :
    ∃ after, finish active result (inner ++ held :: chain) = .next after ∧
      Under limits caller chain after.control := by
  have lowest : 0 < active.machine.stack.size := by
    rw [sound.slots]
    exact Nat.lt_of_lt_of_le (by decide) (Nat.le_max_right _ _)
  cases inner with
  | nil =>
    obtain ⟨answer, ended⟩ := finish_cons lowest result held chain
    exact ⟨_, ended, .native ⟨awaits.machine.withBudget less, awaits.pending, awaits.natives⟩⟩
  | cons top rest =>
    obtain ⟨answer, ended⟩ := finish_cons lowest result top (rest ++ held :: chain)
    exact ⟨_, ended, .inside (waiting.withBudget _) less awaits⟩

theorem under_afterAct {act : Act Next} {pre : Machine → Prop} {active : Active}
    (travels : act.Travels limits (max limits.stackSize 3) pre fun next machine => next.Ready machine)
    (sound : active.machine.Sound (max limits.stackSize 3)) (met : pre active.machine)
    (waiting : Waiting limits (max limits.stackSize 3) inner)
    (less : active.machine.budget ≤ caller.machine.budget) (awaits : caller.Awaits held) :
    ∃ after, afterAct (inner ++ held :: chain) (act active) = .next after ∧
      Under limits caller chain after.control := by
  have outcome := travels active sound met
  cases done : act active with
  | ok next after =>
    rw [done] at outcome
    obtain ⟨moved, ready⟩ := outcome
    have kept := sound.moves moved
    have lower := Int.le_trans (Machine.budget_le_of_moves moved) less
    cases next with
    | proceed => exact ⟨_, rfl, .running kept waiting lower awaits⟩
    | halt => exact under_finish _ kept waiting lower awaits
    | await task pending =>
      have above : Waiting limits (max limits.stackSize 3) (⟨after.machine, pending, []⟩ :: inner) :=
        .cons (by rw [slotsAbove_self]; exact kept) ready waiting
      exact ⟨_, rfl, .inside above lower awaits⟩
  | error stop after =>
    rw [done] at outcome
    obtain ⟨inRange, moved⟩ := outcome
    have lower := Int.le_trans (Machine.budget_le_of_moves moved) less
    cases stop with
    | fault fault => exact under_finish _ (sound.moves moved) waiting lower awaits
    | outOfRange => exact absurd rfl inRange

/-- Only what happens on top can happen, so each turn meets few of the ways to be above the caller. -/
theorem under_turn {execution : Execution} {progress : Progress}
    (turn : Turn setting execution progress)
    (under : Under setting.program.limits caller chain execution.control)
    (unanswered : ¬execution.Answers caller chain) :
    ∃ after, progress = .next after ∧ Under setting.program.limits caller chain after.control := by
  cases turn with
  | instruction =>
    cases under with
    | running sound waiting less awaits =>
      exact under_afterAct (Act.steps_step ⟨setting.program, _⟩) sound trivial waiting less awaits
  | completion waits =>
    cases under with
    | native awaits =>
      exact absurd (answers_of_awaits awaits (List.suffix_nil.mp awaits.natives)) unanswered
    | inside waiting less awaits =>
      cases waiting with
      | cons machine ready below =>
        exact under_afterAct (Act.travels_resume _ _ _) (slotsAbove_self _ _ ▸ machine) ready below
          less awaits
  | reply =>
    cases under with
    | native awaits =>
      exact absurd (answers_of_awaits awaits (List.suffix_nil.mp awaits.natives)) unanswered
    | inside waiting less awaits =>
      cases waiting with
      | cons machine ready below => exact ready.elim
  | native natives silent continues follows =>
    cases under with
    | native awaits =>
      refine ⟨_, rfl, .native ⟨awaits.machine, awaits.pending, ?_⟩⟩
      cases continues with
      | under more => exact awaits.natives.trans more
      | taken result native given top =>
        have within := awaits.natives
        rw [top] at within
        rcases List.suffix_cons_iff.mp within with all | inner
        · subst given
          exact absurd (answers_of_awaits awaits (all.trans top.symm)) unanswered
        · exact inner
    | inside waiting less awaits => exact ⟨_, rfl, .inside (waiting.withNatives natives) less awaits⟩
  | @child _ _ _ top _ natives function arguments keywords _ _ more =>
    cases under with
    | native awaits =>
      have above : caller.Awaits { top with natives } :=
        ⟨awaits.machine, awaits.pending, awaits.natives.trans more⟩
      have fresh : Under setting.program.limits caller chain (.running
          (child setting.program.limits top.machine function arguments keywords)
          ([] ++ { top with natives } :: chain)) :=
        .running (sound_child _ _ _ _) .nil awaits.machine.budget above
      exact ⟨_, rfl, fresh⟩
    | inside waiting less awaits =>
      exact ⟨_, rfl, .running (sound_child _ _ _ _) (waiting.withNatives natives) less awaits⟩

theorem under_during {start execution : Execution}
    (under : Under setting.program.limits caller chain start.control)
    (during : During setting caller chain start execution) :
    Under setting.program.limits caller chain execution.control := by
  induction during with
  | refl => exact under
  | tail _ stepped ih =>
    obtain ⟨after, next, kept⟩ := under_turn (turn_step setting _) ih stepped.1
    rw [stepped.2] at next
    cases next
    exact kept

/-- A call that the host makes ends where it is answered, if it ends. -/
theorem during_run {machine : Machine} (fuel : Nat) {start : Execution}
    (under : Under setting.program.limits { machine, pending := .host } [] start.control) :
    run setting fuel start ≠ .broken ∧
    ∀ world after result, run setting fuel start = .done world after result →
      During setting { machine, pending := .host } [] start
        ⟨world, .native (.answer result) { machine := after, pending := .host } []⟩ := by
  induction fuel generalizing start with
  | zero =>
    refine ⟨by simp [run], ?_⟩
    intro world after result ended
    cases ended
  | succ fuel ih =>
    by_cases answered : start.Answers { machine, pending := .host } []
    · obtain ⟨world, result, machine, rfl⟩ := answered
      refine ⟨by simp [run, step, deliver], ?_⟩
      intro later after other ended
      cases ended
      exact .refl
    · obtain ⟨middle, next, kept⟩ := under_turn (turn_step setting start) under answered
      have continued : run setting (fuel + 1) start = run setting fuel middle := by
        simp only [run, next]
      rw [continued]
      obtain ⟨unbroken, later⟩ := ih kept
      exact ⟨unbroken, fun world after result ended =>
        .head ⟨answered, next⟩ (later world after result ended)⟩

end Execution

namespace Session

variable {session : Session} {fuel : Nat} {held : List Value} {request : Request}

/-- A call that has ended left the session's machine as it was, but for its budget, and was answered
last. -/
theorem during_calling {world : World} {machine : Machine} {result : Except Fault Value}
    (ended : Execution.run (session.setting held) fuel (session.calling request) =
      .done world machine result) :
    session.machine.Spent machine ∧
      Execution.During (session.setting held) session.caller [] (session.calling request)
        ⟨world, .native (.answer result) { machine, pending := .host } []⟩ := by
  have start : Under (session.setting held).program.limits session.caller []
      (session.calling request).control := .native (.refl _)
  have during := (Execution.during_run fuel start).2 _ _ _ ended
  exact ⟨(Execution.under_during start during).awaits.machine, during⟩

theorem call_of_done {world : World} {machine : Machine} {value : Value}
    (ended : Execution.run (session.setting held) fuel (session.calling request) =
      .done world machine (.ok value)) :
    call fuel held request session = .ok value { session with world, machine } := by
  simp only [call, ended]

/-- A call at rest leaves the machine as it was, but for its budget. -/
theorem spent_call (session : Session) (fuel : Nat) (held : List Value) (request : Request) :
    match call fuel held request session with
    | .ok _ after => session.machine.Spent after.machine
    | .error interruption after => interruption ≠ .broken ∧ session.machine.Spent after.machine := by
  have unbroken : Execution.run (session.setting held) fuel (session.calling request) ≠ .broken :=
    (Execution.during_run fuel (.native (.refl session.caller))).1
  unfold call
  cases ended : Execution.run (session.setting held) fuel (session.calling request) with
  | next execution => exact ⟨by simp, .refl _⟩
  | done world machine result =>
    have spent := (during_calling ended).1
    cases result with
    | ok value => exact spent
    | error fault => exact ⟨by simp, spent⟩
  | broken => exact absurd ended unbroken

end Session

open Execution

/-- Whatever native code does for a task, a call of its own or one that an instruction asked for: it
goes on until it is answered, the machines below the call are as they were, and so is the machine that
waits for it, except that its budget may have become smaller. The same holds of a machine on which
the host makes a call while nothing runs. -/
theorem native_calls_spare_callers :
    (∀ (setting : Setting) (world : World) (task : Task) (caller : Suspended)
      (chain : List Suspended) (execution : Execution),
      During setting caller chain ⟨world, .native task caller chain⟩ execution →
        (¬execution.Answers caller chain → ∃ next, step setting execution = .next next) ∧
        (∃ inner held, execution.control.suspended = inner ++ held :: chain ∧ caller.Awaits held) ∧
        ∀ later result machine,
          execution = ⟨later, .native (.answer result) { caller with machine } chain⟩ →
            caller.machine.Spent machine) ∧
    ∀ (session : Session) (fuel : Nat) (held : List Value) (request : Request),
      (∀ value after, Session.call fuel held request session = .ok value after →
        session.machine.Spent after.machine) ∧
      ∀ interruption after, Session.call fuel held request session = .error interruption after →
        interruption ≠ .broken ∧ session.machine.Spent after.machine := by
  refine ⟨?_, ?_⟩
  · intro setting world task caller chain execution during
    have under := under_during (.native (.refl caller)) during
    refine ⟨?_, ?_, ?_⟩
    · intro unanswered
      obtain ⟨after, next, -⟩ := under_turn (turn_step setting execution) under unanswered
      exact ⟨after, next⟩
    · exact under.suspended
    · rintro later result machine rfl
      exact under.awaits.machine
  · intro session fuel held request
    have spent := session.spent_call fuel held request
    refine ⟨?_, ?_⟩
    · intro value after called
      rw [called] at spent
      exact spent
    · intro interruption after called
      rw [called] at spent
      exact spent

/-- A session with a function that makes an array. -/
def lending : Session where
  program := { main := 0, limits := { stackSize := 4, maxAllocations := 5 } }
  host := .standard
  world := { store := { cells := #[.function { code := {} }, .function
    { code := { instructions := assemble [⟨.array, [0]⟩, ⟨.ret, [0]⟩] } }] } }
  machine := .blank { stackSize := 4, maxAllocations := 5 } {}

/-- The array is charged to the machine on which the call was made, and nothing else is changed
there. -/
theorem native_calls_spare_callers_lending :
    (∃ later result machine,
      During (lending.setting []) lending.caller [] (lending.calling { callee := .function 1 })
        ⟨later, .native (.answer result) { lending.caller with machine } []⟩ ∧
      lending.machine.Spent machine ∧ machine.budget < lending.machine.budget) ∧
    ∃ value after, Session.call 7 [] { callee := .function 1 } lending = .ok value after ∧
      lending.machine.Spent after.machine ∧ after.machine.budget < lending.machine.budget := by
  have charged : (match run (lending.setting []) 7 (lending.calling { callee := .function 1 }) with
      | .done _ machine (.ok _) => some machine.budget
      | _ => none) = some 5 := by decide +kernel
  cases ended : run (lending.setting []) 7 (lending.calling { callee := .function 1 }) with
  | next execution => simp [ended] at charged
  | broken => simp [ended] at charged
  | done world machine result =>
    cases result with
    | error fault => simp [ended] at charged
    | ok value =>
      have less : machine.budget < lending.machine.budget := by
        simp only [ended, Option.some.injEq] at charged
        rw [charged]
        decide
      have during := (Session.during_calling ended).2
      have called := Session.call_of_done ended
      obtain ⟨-, -, first⟩ := native_calls_spare_callers.1 _ _ _ _ _ _ during
      obtain ⟨second, -⟩ := native_calls_spare_callers.2 lending 7 [] { callee := .function 1 }
      exact ⟨⟨world, .ok value, machine, during, first _ _ _ rfl, less⟩,
        value, _, called, second _ _ called, less⟩

end ScriptMachine
