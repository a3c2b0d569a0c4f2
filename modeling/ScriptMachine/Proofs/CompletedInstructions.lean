import ScriptMachine.Proofs.DecodedInstructions
import ScriptMachine.Proofs.NativeCalls

/-! Instructions from beginning to end. Some wait for native code on the way, which may run functions on
other machines; the machine of the instruction only loses some of its budget meanwhile. -/

namespace ScriptMachine.Execution

variable {setting : Setting} {chain : List Suspended}

abbrev Above (setting : Setting) (chain : List Suspended) : Execution → Execution → Prop :=
  Relation.ReflTransGen fun before after =>
    chain.length < before.control.suspended.length ∧ step setting before = .next after

/-- A machine with `chain` below it executes one instruction, and is then about to execute the next
one. Whatever native code it calls, and whatever that calls, is done in between. -/
def Completes (setting : Setting) (chain : List Suspended) (before after : Active) : Prop :=
  ∃ middle, step setting ⟨before.world, .running before.machine chain⟩ = .next middle ∧
    Above setting chain middle ⟨after.world, .running after.machine chain⟩

/-- What an instruction has come to so far, and what it comes to in the end: it goes on at once, or
does what is left of it when the answer comes. -/
inductive Settles (setting : Setting) (chain : List Suspended) :
    EStateM.Result Stop Active Next → Active → Prop where
  | proceeds {after : Active} : Settles setting chain (.ok .proceed after) after
  | answered {active after : Active} {task : Task} {pending : Pending} {world : World}
      {result : Except Fault Value} {machine : Machine}
      (during : Above setting chain
        ⟨active.world, .native task { machine := active.machine, pending } chain⟩
        ⟨world, .native (.answer result) { machine, pending } chain⟩)
      (spent : active.machine.Spent machine)
      (rest : Settles setting chain
        (Act.resume setting.program.limits pending result ⟨world, machine⟩) after) :
      Settles setting chain (.ok (.await task pending) active) after

/-- What can follow an act: the same machine goes on or waits, or a machine that waited for it does. -/
theorem afterAct_eq_next {result : EStateM.Result Stop Active Next} {middle : Execution}
    (decided : afterAct chain result = .next middle) :
    (∃ active : Active, result = .ok .proceed active ∧
      middle = ⟨active.world, .running active.machine chain⟩) ∨
    (∃ (active : Active) (task : Task) (pending : Pending), result = .ok (.await task pending) active ∧
      middle = ⟨active.world, .native task { machine := active.machine, pending } chain⟩) ∨
    ∃ world task caller below, middle = ⟨world, .native task caller below⟩ ∧
      below.length < chain.length := by
  have stopped (active : Active) (outcome : Except Fault Value)
      (ended : finish active outcome chain = .next middle) :
      ∃ world task caller below, middle = ⟨world, .native task caller below⟩ ∧
        below.length < chain.length := by
    cases chain with
    | nil => cases ended
    | cons caller below =>
      obtain ⟨answer, -, -, same⟩ | ⟨-, same⟩ := finish_cons_cases active outcome caller below
      · rw [same] at ended
        cases ended
        exact ⟨_, _, _, _, rfl, Nat.lt_succ_self _⟩
      · rw [same] at ended
        cases ended
  cases result with
  | ok next active =>
    cases next with
    | proceed =>
      cases decided
      exact .inl ⟨active, rfl, rfl⟩
    | halt => exact .inr (.inr (stopped active _ decided))
    | await task pending =>
      cases decided
      exact .inr (.inl ⟨active, task, pending, rfl, rfl⟩)
  | error stop active =>
    cases stop with
    | fault fault => exact .inr (.inr (stopped active _ decided))
    | outOfRange => cases decided

/-- The native code that waits on a machine gets its answer, and the machine goes on; or it has none yet,
and the machine still waits. -/
theorem under_step {caller : Suspended} {execution : Execution} (idle : caller.natives = [])
    (under : Under setting.program.limits caller chain execution.control) :
    (∃ world result machine,
      execution = ⟨world, .native (.answer result) { caller with machine } chain⟩ ∧
      caller.machine.Spent machine ∧
      (step setting execution = afterAct chain
          (Act.resume setting.program.limits caller.pending result ⟨world, machine⟩) ∨
        step setting execution = .done world machine result)) ∨
    ∃ next, step setting execution = .next next ∧
      Under setting.program.limits caller chain next.control := by
  by_cases answered : execution.Answers caller chain
  · obtain ⟨world, result, machine, rfl⟩ := answered
    refine .inl ⟨world, result, machine, rfl, under.awaits.machine, ?_⟩
    obtain ⟨began, pending, natives⟩ := caller
    cases idle
    cases pending with
    | host => exact .inr rfl
    | _ => exact .inl rfl
  · exact .inr (under_turn (turn_step setting execution) under answered)

/-- Both an instruction that has just been begun and one that waits for native code are settled by the time
their machine executes the next one. The induction goes from the last step to the first, for both together:
an instruction that begins may wait, and one that is answered may go on. -/
theorem settles_of_above {start : Execution} {after : Active}
    (above : Above setting chain start ⟨after.world, .running after.machine chain⟩) :
    (∀ result, afterAct chain result = .next start → Settles setting chain result after) ∧
    ∀ caller, caller.natives = [] → Under setting.program.limits caller chain start.control →
      ∃ world result machine, Above setting chain start
          ⟨world, .native (.answer result) { caller with machine } chain⟩ ∧
        caller.machine.Spent machine ∧
        Settles setting chain
          (Act.resume setting.program.limits caller.pending result ⟨world, machine⟩) after := by
  obtain ⟨later, moved⟩ := after
  induction above using Relation.ReflTransGen.head_induction_on with
  | refl =>
    refine ⟨?_, ?_⟩
    · intro result decided
      obtain ⟨active, rfl, same⟩ | ⟨_, _, _, -, same⟩ | ⟨_, _, _, _, same, -⟩ :=
        afterAct_eq_next decided
      · obtain ⟨world, machine⟩ := active
        cases same
        exact .proceeds
      · cases same
      · cases same
    · intro caller idle under
      exact absurd under.length_lt (Nat.lt_irrefl _)
  | @head before middle first _ ih =>
    obtain ⟨longer, stepped⟩ := first
    have waits (caller : Suspended) (idle : caller.natives = [])
        (under : Under setting.program.limits caller chain before.control) :
        ∃ world result machine, Above setting chain before
            ⟨world, .native (.answer result) { caller with machine } chain⟩ ∧
          caller.machine.Spent machine ∧
          Settles setting chain
            (Act.resume setting.program.limits caller.pending result ⟨world, machine⟩)
            ⟨later, moved⟩ := by
      obtain ⟨world, result, machine, rfl, spent, resumes | ended⟩ | ⟨next, following, kept⟩ :=
        under_step idle under
      · exact ⟨world, result, machine, .refl, spent, ih.1 _ (resumes.symm.trans stepped)⟩
      · cases ended.symm.trans stepped
      · cases stepped.symm.trans following
        obtain ⟨world, result, machine, during, spent, rest⟩ := ih.2 caller idle kept
        exact ⟨world, result, machine, .head ⟨longer, stepped⟩ during, spent, rest⟩
    refine ⟨?_, waits⟩
    intro result decided
    obtain ⟨_, -, rfl⟩ | ⟨active, task, pending, rfl, rfl⟩ | ⟨_, _, _, _, rfl, fewer⟩ :=
      afterAct_eq_next decided
    · exact absurd longer (Nat.lt_irrefl _)
    · obtain ⟨world, outcome, machine, during, spent, rest⟩ := waits _ rfl (.native (.refl _))
      exact .answered during spent rest
    · exact absurd longer (Nat.not_lt_of_le fewer)

theorem Completes.settles {world : World} {machine : Machine} {after : Active}
    (completes : Completes setting chain ⟨world, machine⟩ after) :
    Settles setting chain
      (Act.step ⟨setting.program, fun _ => setting.outside chain⟩ ⟨world, machine⟩) after := by
  obtain ⟨middle, stepped, above⟩ := completes
  exact (settles_of_above above).1 _ stepped

theorem Completes.performs {world : World} {machine : Machine} {after : Active}
    (completes : Completes setting chain ⟨world, machine⟩ after) :
    ∃ instruction next active,
      Instruction.decode? machine.code machine.ip = some instruction ∧
      Act.step ⟨setting.program, fun _ => setting.outside chain⟩ ⟨world, machine⟩ = .ok next active ∧
      Act.perform ⟨setting.program, fun _ => setting.outside chain⟩ instruction
        ⟨world, machine.decoded instruction.op⟩ = .ok next active ∧
      Settles setting chain (.ok next active) after := by
  have settles := completes.settles
  cases stepped : Act.step ⟨setting.program, fun _ => setting.outside chain⟩ ⟨world, machine⟩ with
  | error stop active =>
    rw [stepped] at settles
    cases settles
  | ok next active =>
    rw [stepped] at settles
    obtain ⟨instruction, decoded, performed⟩ := Act.step_eq_perform stepped
    exact ⟨instruction, next, active, decoded, rfl, performed, settles⟩

theorem reaches_of_above {start execution : Execution}
    (above : Above setting chain start execution) : Reaches setting start execution := by
  induction above with
  | refl => exact .refl
  | tail _ moved ih => exact ih.tail moved.2

theorem reaches_of_completes {first next : Active}
    (completes : Completes setting chain first next) :
    Reaches setting ⟨first.world, .running first.machine chain⟩
      ⟨next.world, .running next.machine chain⟩ := by
  obtain ⟨middle, stepped, above⟩ := completes
  exact .head stepped (reaches_of_above above)

/-- The states of a run in which the outermost machine is about to execute an instruction. -/
abbrev Arrives (setting : Setting) : Active → Active → Prop :=
  Relation.ReflTransGen (Completes setting [])

theorem reaches_of_arrives {first last : Active} (arrived : Arrives setting first last) :
    Reaches setting ⟨first.world, .running first.machine []⟩
      ⟨last.world, .running last.machine []⟩ := by
  induction arrived with
  | refl => exact .refl
  | tail _ completes ih => exact ih.trans (reaches_of_completes completes)

theorem Completes.unique {first next other : Active}
    (completes : Completes setting chain first next) (again : Completes setting chain first other) :
    next = other := by
  obtain ⟨middle, stepped, above⟩ := completes
  obtain ⟨_, same, beyond⟩ := again
  cases stepped.symm.trans same
  have unique : Relator.RightUnique fun before after : Execution =>
      chain.length < before.control.suspended.length ∧ step setting before = .next after := by
    intro before after later moved again
    cases moved.2.symm.trans again.2
    rfl
  have stopped {start last : Active} (met : Above setting chain
      ⟨start.world, .running start.machine chain⟩ ⟨last.world, .running last.machine chain⟩) :
      start = last := by
    obtain same | ⟨_, moved, -⟩ := met.cases_head
    · cases start
      cases last
      cases same
      rfl
    · exact absurd moved.1 (Nat.lt_irrefl _)
  obtain met | met := above.total_of_right_unique unique beyond
  · exact stopped met
  · exact (stopped met).symm

/-- Follows an execution, for so many steps at most, until its outermost machine is at work. -/
def untilAlone? (setting : Setting) : Nat → Execution → Option Active
  | 0, _ => none
  | fuel + 1, execution =>
    match execution.control with
    | .running machine [] => some ⟨execution.world, machine⟩
    | _ =>
      match step setting execution with
      | .next later => untilAlone? setting fuel later
      | _ => none

/-- What an outermost machine comes to when it completes its next instruction, if so many steps are
enough. -/
def complete? (setting : Setting) (fuel : Nat) (before : Active) : Option Active :=
  match step setting ⟨before.world, .running before.machine []⟩ with
  | .next middle => untilAlone? setting fuel middle
  | _ => none

theorem above_of_untilAlone? {fuel : Nat} {start : Execution} {after : Active}
    (found : untilAlone? setting fuel start = some after) :
    Above setting [] start ⟨after.world, .running after.machine []⟩ := by
  induction fuel generalizing start with
  | zero => cases found
  | succ fuel ih =>
    have follows (waits : 0 < start.control.suspended.length)
        (followed : (match step setting start with
          | .next later => untilAlone? setting fuel later
          | _ => none) = some after) :
        Above setting [] start ⟨after.world, .running after.machine []⟩ := by
      cases stepped : step setting start with
      | next later =>
        rw [stepped] at followed
        exact .head ⟨waits, stepped⟩ (ih followed)
      | _ =>
        rw [stepped] at followed
        cases followed
    obtain ⟨world, control⟩ := start
    cases control with
    | running machine chain =>
      cases chain with
      | nil =>
        cases found
        exact .refl
      | cons => exact follows (Nat.succ_pos _) found
    | native => exact follows (Nat.succ_pos _) found

theorem completes_of_complete? {fuel : Nat} {before after : Active}
    (found : complete? setting fuel before = some after) : Completes setting [] before after := by
  unfold complete? at found
  split at found
  next middle stepped => exact ⟨middle, stepped, above_of_untilAlone? found⟩
  · cases found

def isNext : Progress → Bool
  | .next _ => true
  | _ => false

/-- What an outermost machine comes to when it completes so many instructions, each in so many steps at
most. -/
def completeAll? (setting : Setting) (fuel : Nat) : Nat → Active → Option Active
  | 0, start => some start
  | count + 1, start => (complete? setting fuel start).bind (completeAll? setting fuel count)

/-- If it cannot begin another instruction after so many, it arrives at no other states than these. -/
theorem completeAll?_of_arrives {fuel count : Nat} {start last final : Active}
    (arrived : Arrives setting start last) (ends : completeAll? setting fuel count start = some final)
    (stuck : isNext (step setting ⟨final.world, .running final.machine []⟩) = false) :
    ∃ index ≤ count, completeAll? setting fuel index start = some last := by
  induction count generalizing start with
  | zero =>
    cases ends
    obtain rfl | ⟨next, ⟨middle, stepped, -⟩, -⟩ := arrived.cases_head
    · exact ⟨0, Nat.le_refl _, rfl⟩
    · rw [stepped] at stuck
      cases stuck
  | succ count ih =>
    obtain ⟨middle, found, rest⟩ := Option.bind_eq_some_iff.mp ends
    obtain rfl | ⟨next, completes, later⟩ := arrived.cases_head
    · exact ⟨0, Nat.zero_le _, rfl⟩
    · cases completes.unique (completes_of_complete? found)
      obtain ⟨index, few, known⟩ := ih later rest
      exact ⟨index + 1, Nat.succ_le_succ few, Option.bind_eq_some_iff.mpr ⟨_, found, known⟩⟩

end ScriptMachine.Execution
