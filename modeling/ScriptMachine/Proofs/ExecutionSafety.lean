import ScriptMachine.Proofs.InstructionSafety
import ScriptMachine.Proofs.ExecutionTurns
import ScriptMachine.Session

/-! Every machine of a run stays in working order: the outermost one, those that run native-side calls
and those that wait. So a run ends or goes on, but is never broken by its code. -/

namespace ScriptMachine

/-- How many slots the machine above waiting ones has. The outermost machine has `size`. -/
def slotsAbove (limits : Limits) (size : Nat) : List Suspended → Nat
  | [] => size
  | _ :: _ => max limits.stackSize 3

/-- Waiting machines in working order, each of which can complete its instruction. -/
inductive Waiting (limits : Limits) (size : Nat) : List Suspended → Prop where
  | nil : Waiting limits size []
  | cons {caller : Suspended} {chain : List Suspended}
      (machine : caller.machine.Sound (slotsAbove limits size chain))
      (ready : caller.pending.Ready caller.machine.sp) (below : Waiting limits size chain) :
      Waiting limits size (caller :: chain)

def Control.Sound (limits : Limits) (size : Nat) : Control → Prop
  | .running machine chain =>
    machine.Sound (slotsAbove limits size chain) ∧ Waiting limits size chain
  | .native _ caller chain => Waiting limits size (caller :: chain)

def Progress.Sound (limits : Limits) (size : Nat) : Progress → Prop
  | .next execution => execution.control.Sound limits size
  | .done _ machine _ => machine.Sound size
  | .broken => False

namespace Waiting

variable {limits : Limits} {size : Nat} {caller : Suspended} {chain : List Suspended}

theorem withNatives (waiting : Waiting limits size (caller :: chain)) (natives : List Native) :
    Waiting limits size ({ caller with natives } :: chain) := by
  cases waiting with
  | cons machine ready below => exact .cons machine ready below

theorem withBudget (waiting : Waiting limits size (caller :: chain)) (budget : Int) :
    Waiting limits size ({ caller with machine := { caller.machine with budget } } :: chain) := by
  cases waiting with
  | cons machine ready below =>
    exact .cons ⟨machine.slots, machine.used, machine.frames, machine.code⟩ ready below

end Waiting

namespace Execution

variable {limits : Limits} {size : Nat} {setting : Setting} {chain : List Suspended}

/-- A machine that has stopped is left behind; one that waited for it has a value to go on with. -/
theorem sound_finish {active : Active} (result : Except Fault Value)
    (sound : active.machine.Sound (slotsAbove limits size chain))
    (waiting : Waiting limits size chain) : (finish active result chain).Sound limits size := by
  cases chain with
  | nil => exact sound
  | cons caller chain =>
    have lowest : 0 < active.machine.stack.size := by
      rw [sound.slots]
      exact Nat.lt_of_lt_of_le (by decide) (Nat.le_max_right _ _)
    obtain ⟨answer, -, -, same⟩ | ⟨missing, -⟩ := finish_cons_cases active result caller chain
    · rw [same]
      exact waiting.withBudget _
    · exact absurd (Array.getElem?_eq_none_iff.mp missing) (Nat.not_le.mpr lowest)

theorem sound_afterAct {act : Act Next} {pre : Machine → Prop} {active : Active}
    (travels : act.Travels limits (slotsAbove limits size chain) pre
      fun next machine => next.Ready machine)
    (sound : active.machine.Sound (slotsAbove limits size chain)) (met : pre active.machine)
    (waiting : Waiting limits size chain) : (afterAct chain (act active)).Sound limits size := by
  have outcome := travels active sound met
  cases done : act active with
  | ok next after =>
    rw [done] at outcome
    have kept := sound.moves outcome.1
    cases next with
    | proceed => exact ⟨kept, waiting⟩
    | halt => exact sound_finish _ kept waiting
    | await task pending => exact .cons kept outcome.2 waiting
  | error stop after =>
    rw [done] at outcome
    cases stop with
    | fault fault => exact sound_finish _ (sound.moves outcome.2) waiting
    | outOfRange => exact absurd rfl outcome.1

theorem sound_child (caller : Machine) (function : Ref) (arguments keywords : Value) :
    (child limits caller function arguments keywords).Sound (max limits.stackSize 3) := by
  refine ⟨?_, Nat.le_max_right _ _, ?_, ?_⟩
  · simp only [child, Array.size_append, Array.size_replicate, List.size_toArray, List.length_cons,
      List.length_nil]
    omega
  · exact .bottom rfl (Nat.zero_le _)
  · intro frame callers same
    cases same
    rfl

theorem sound_turn {execution : Execution} {progress : Progress}
    (turn : Turn setting execution progress)
    (sound : execution.control.Sound setting.program.limits size) :
    progress.Sound setting.program.limits size := by
  cases turn with
  | instruction =>
    exact sound_afterAct (Act.steps_step ⟨setting.program, _⟩) sound.1 trivial sound.2
  | completion waits =>
    cases sound with
    | cons machine ready below => exact sound_afterAct (Act.travels_resume _ _ _) machine ready below
  | reply =>
    cases sound with
    | cons machine ready below => exact ready.elim
  | native natives => exact sound.withNatives natives
  | child natives => exact ⟨sound_child _ _ _ _, sound.withNatives natives⟩

theorem sound_step {execution : Execution}
    (sound : execution.control.Sound setting.program.limits size) :
    (step setting execution).Sound setting.program.limits size :=
  sound_turn (turn_step setting execution) sound

abbrev Reaches (setting : Setting) : Execution → Execution → Prop :=
  Relation.ReflTransGen fun before after => step setting before = .next after

/-- A run comes to a state where it stops for want of fuel, or from where one step gives its end. -/
theorem exists_last_of_run (setting : Setting) (fuel : Nat) (execution : Execution) :
    ∃ last, Reaches setting execution last ∧
      (run setting fuel execution = .next last ∨ run setting fuel execution = step setting last) := by
  induction fuel generalizing execution with
  | zero => exact ⟨execution, .refl, .inl rfl⟩
  | succ fuel ih =>
    unfold run
    cases stepped : step setting execution with
    | next middle =>
      obtain ⟨last, reached, ends⟩ := ih middle
      exact ⟨last, .head stepped reached, ends⟩
    | done world machine result => exact ⟨execution, .refl, .inr stepped.symm⟩
    | broken => exact ⟨execution, .refl, .inr stepped.symm⟩

theorem reaches_of_run (fuel : Nat) {execution after : Execution}
    (ran : run setting fuel execution = .next after) : Reaches setting execution after := by
  obtain ⟨last, reached, stops | steps⟩ := exists_last_of_run setting fuel execution
  · cases stops.symm.trans ran
    exact reached
  · exact reached.tail (steps.symm.trans ran)

theorem reaches_of_done {fuel : Nat} {execution : Execution} {world : World} {machine : Machine}
    {result : Except Fault Value} (ended : run setting fuel execution = .done world machine result) :
    ∃ last, Reaches setting execution last ∧ step setting last = .done world machine result := by
  obtain ⟨last, reached, stops | steps⟩ := exists_last_of_run setting fuel execution
  · cases stops.symm.trans ended
  · exact ⟨last, reached, steps.symm.trans ended⟩

theorem sound_reaches {start execution : Execution}
    (sound : start.control.Sound setting.program.limits size)
    (reached : Reaches setting start execution) :
    execution.control.Sound setting.program.limits size := by
  induction reached with
  | refl => exact sound
  | tail _ stepped ih =>
    have next := sound_step ih
    rw [stepped] at next
    exact next

theorem sound_run (fuel : Nat) {execution : Execution}
    (sound : execution.control.Sound setting.program.limits size) :
    (run setting fuel execution).Sound setting.program.limits size := by
  obtain ⟨last, reached, stops | steps⟩ := exists_last_of_run setting fuel execution
  · rw [stops]
    exact sound_reaches sound reached
  · rw [steps]
    exact sound_step (sound_reaches sound reached)

end Execution

namespace Session

theorem sound_startMachine {session : Session} {deadline : Deadline} {machine : Machine}
    (started : session.startMachine deadline = .ok machine) :
    machine.Sound session.machine.stack.size := by
  simp only [startMachine] at started
  split at started
  · cases started
  next fits =>
    cases started
    refine ⟨Array.size_replicate, Nat.le_of_not_lt fits, ?_, ?_⟩
    · exact .bottom rfl (by simpa using fits)
    · intro frame callers same
      cases same
      rfl

/-- Whatever the code, the limits, the globals and the host do, every machine of a run is in working
order in every state, and the run ends with a result or a fault: no instruction uses a slot that its
stack does not have. -/
theorem runs_in_order (session : Session) (deadline : Deadline) (machine : Machine)
    (started : session.startMachine deadline = .ok machine) :
    (∀ execution,
      Execution.Reaches (session.setting []) ⟨session.world, .running machine []⟩ execution →
        execution.control.Sound session.program.limits session.machine.stack.size ∧
        (Execution.step (session.setting []) execution).Sound session.program.limits
          session.machine.stack.size) ∧
    ∀ fuel after, run fuel deadline session ≠ .error .broken after := by
  have sound : (Control.running machine []).Sound session.program.limits session.machine.stack.size :=
    ⟨sound_startMachine started, .nil⟩
  refine ⟨?_, ?_⟩
  · intro execution reached
    have kept := Execution.sound_reaches sound reached
    exact ⟨kept, Execution.sound_step kept⟩
  · intro fuel after
    have ended : (Execution.run (session.setting []) fuel
        ⟨session.world, .running machine []⟩).Sound session.program.limits
        session.machine.stack.size := Execution.sound_run fuel sound
    simp only [run, started]
    split
    · simp
    · simp
    · simp
    next broken =>
      rw [broken] at ended
      exact ended.elim

/-- A session whose main function takes more off the stack than there is. -/
def underflowing : Session where
  program := { main := 0 }
  host := .standard
  world := { store := { cells := #[.function
    { code := { instructions := assemble [⟨.pop, []⟩, ⟨.pop, []⟩], locals := 1 } }] } }
  machine := .blank { stackSize := 2 } {}

theorem runs_in_order_underflowing :
    (∃ machine, underflowing.startMachine .unlimited = .ok machine) ∧
      ∀ fuel after, run fuel .unlimited underflowing ≠ .error .broken after :=
  ⟨⟨_, rfl⟩, (runs_in_order underflowing .unlimited _ rfl).2⟩

end Session

end ScriptMachine
