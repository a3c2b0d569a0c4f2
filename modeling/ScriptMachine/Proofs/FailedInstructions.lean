import ScriptMachine.Proofs.BlamedOffsets
import ScriptMachine.Proofs.SessionHistories

/-! Instructions in which a run ends. Until an instruction of the outermost machine is completed, the
machine has the calls in progress with which it began it, whatever native code and other machines do
meanwhile. So it still has them when the run ends. -/

namespace ScriptMachine

namespace Act

variable {around : Surroundings} {world : World} {machine : Machine} {active after : Active}

/-- An instruction that waits for native code has neither entered nor left a function. -/
theorem setup_of_await {task : Task} {pending : Pending}
    (stepped : step around ⟨world, machine⟩ = .ok (.await task pending) active) :
    active.machine.setup = machine.setup := by
  obtain ⟨instruction, decoded, performed⟩ := step_eq_perform stepped
  have whole := Instruction.length_operands (Instruction.decode?_eq_some decoded).2
  obtain ⟨op, operands⟩ := instruction
  by_cases call : op = .call
  · cases call
    cases calls_perform whole performed with
    | waits => rfl
  by_cases ret : op = .ret
  · cases ret
    match operands with
    | [operand] =>
      obtain halts | ⟨_, _, _, _, _, proceeds⟩ := perform_ret performed
      · cases halts
      · cases proceeds
  exact (settled_perform whole ret call performed).1.setup

theorem scene_fetch (active : Active) :
    (final (fetch active)).machine.scene = ⟨active.machine.setup, active.machine.ip⟩ := by
  unfold fetch
  dsimp only
  split
  · rfl
  · split
    · rfl
    · rfl

/-- So has one that fails. It is the one being executed, unless the run has been stopped before it. -/
theorem scene_of_stopped {stop : Stop} (stopped : step around ⟨world, machine⟩ = .error stop after) :
    after.machine.setup = machine.setup ∧
      (observe ⟨world, machine⟩ = .ok () ⟨world, machine⟩ → after.machine.opIp = machine.ip) := by
  obtain ⟨observed, same⟩ | fetched | ⟨op, -, executed⟩ := step_eq_error stopped
  · rw [same]
    exact ⟨rfl, fun goesOn => by cases observed.symm.trans goesOn⟩
  · have same := scene_fetch ⟨world, machine⟩
    rw [fetched] at same
    exact ⟨congrArg Scene.setup same, fun _ => congrArg Scene.opIp same⟩
  · have same : after.machine.scene = ⟨machine.setup, machine.ip⟩ := scene_of_failed executed
    exact ⟨congrArg Scene.setup same, fun _ => congrArg Scene.opIp same⟩

end Act

namespace Execution

variable {setting : Setting} {begun left : Active} {before execution : Execution} {fault : Fault}

/-- The outermost machine has begun an instruction that it has not completed: it is about to execute
it, or somebody is at work for it. -/
inductive Attempts (setting : Setting) (begun : Active) : Execution → Prop where
  | begins : Attempts setting begun ⟨begun.world, .running begun.machine []⟩
  | waits {before after : Execution} (attempts : Attempts setting begun before)
      (stepped : step setting before = .next after) (longer : 0 < after.control.suspended.length) :
      Attempts setting begun after

/-- The outermost machine begins an instruction, and in it the run ends with a fault. -/
def FailsAt (setting : Setting) (begun : Active) (fault : Fault) (left : Active) : Prop :=
  ∃ last, Attempts setting begun last ∧
    step setting last = .done left.world left.machine (.error fault)

theorem Attempts.follows {later : Execution} (attempts : Attempts setting begun before)
    (stepped : step setting before = .next later) :
    ∃ middle, step setting ⟨begun.world, .running begun.machine []⟩ = .next middle ∧
      Above setting [] middle later := by
  induction attempts generalizing later with
  | begins => exact ⟨later, stepped, .refl⟩
  | waits _ moved longer ih =>
    obtain ⟨middle, first, above⟩ := ih moved
    exact ⟨middle, first, above.tail ⟨longer, stepped⟩⟩

/-- A run of the outermost machine consists of completed instructions and one that it attempts. -/
theorem attempted {start : Active}
    (reached : Reaches setting ⟨start.world, .running start.machine []⟩ execution) :
    ∃ begun, Arrives setting start begun ∧
      Attempts setting begun execution := by
  induction reached with
  | refl => exact ⟨start, .refl, .begins⟩
  | @tail before after _ stepped ih =>
    obtain ⟨begun, completed, attempts⟩ := ih
    obtain ⟨world, control⟩ := after
    match control with
    | .running machine [] =>
      exact ⟨⟨world, machine⟩, completed.tail (attempts.follows stepped), .begins⟩
    | .running machine (caller :: chain) =>
      exact ⟨begun, completed, attempts.waits stepped (Nat.succ_pos _)⟩
    | .native task caller chain =>
      exact ⟨begun, completed, attempts.waits stepped (Nat.succ_pos _)⟩

/-- The outermost machine is about to execute the instruction, or it waits in the middle of it with the
calls in progress that it had. -/
inductive Stands (setting : Setting) (begun : Active) : Execution → Prop where
  | begins : Stands setting begun ⟨begun.world, .running begun.machine []⟩
  | waits {caller : Suspended} {execution : Execution}
      (scene : caller.machine.scene = ⟨begun.machine.setup, begun.machine.ip⟩)
      (idle : caller.natives = [])
      (under : Under setting.program.limits caller [] execution.control) :
      Stands setting begun execution

theorem stands_afterAct {result : EStateM.Result Stop Active Next}
    (decided : afterAct [] result = .next execution) (longer : 0 < execution.control.suspended.length)
    (scene : ∀ task pending active, result = .ok (.await task pending) active →
      active.machine.scene = ⟨begun.machine.setup, begun.machine.ip⟩) :
    Stands setting begun execution := by
  obtain ⟨active, rfl, rfl⟩ | ⟨active, task, pending, rfl, rfl⟩ | ⟨_, _, _, _, rfl, fewer⟩ :=
    afterAct_eq_next decided
  · exact absurd longer (Nat.lt_irrefl _)
  · exact .waits (scene _ _ _ rfl) rfl (.native (.refl _))
  · exact absurd fewer (Nat.not_lt_zero _)

theorem Attempts.stands (attempts : Attempts setting begun execution) :
    Stands setting begun execution := by
  induction attempts with
  | begins => exact .begins
  | @waits before after _ stepped longer ih =>
    cases ih with
    | begins =>
      refine stands_afterAct stepped longer fun task pending active awaits => ?_
      rw [Machine.scene, Act.setup_of_await awaits, Act.opIp_of_step awaits]
    | @waits caller _ scene idle under =>
      obtain ⟨world, result, machine, rfl, spent, resumes | ends⟩ | ⟨next, moved, kept⟩ :=
        under_step idle under
      · refine stands_afterAct (resumes.symm.trans stepped) longer fun task pending active awaits => ?_
        have leaves := Act.leaves_resume setting.program.limits caller.pending result ⟨world, machine⟩
        rw [awaits] at leaves
        exact leaves.kept.trans (spent.scene.trans scene)
      · cases ends.symm.trans stepped
      · cases moved.symm.trans stepped
        exact .waits scene idle kept

theorem eq_error_of_afterAct {result : EStateM.Result Stop Active Next}
    (ended : afterAct [] result = .done left.world left.machine (.error fault)) :
    result = .error (.fault fault) left := by
  obtain ⟨world, machine⟩ := left
  cases result with
  | ok next active =>
    cases next with
    | _ => cases ended
  | error stop active =>
    cases stop with
    | fault reason =>
      cases ended
      rfl
    | outOfRange => cases ended

/-- The run leaves the machine with the calls in progress that it had. If it was not stopped before the
instruction, that is the one which the machine has executed last. -/
theorem FailsAt.scene (fails : FailsAt setting begun fault left) :
    left.machine.setup = begun.machine.setup ∧
      (Act.observe begun = .ok () begun → left.machine.opIp = begun.machine.ip) := by
  obtain ⟨last, attempts, ended⟩ := fails
  cases attempts.stands with
  | begins => exact Act.scene_of_stopped (eq_error_of_afterAct ended)
  | @waits caller _ scene idle under =>
    have same : left.machine.scene = ⟨begun.machine.setup, begun.machine.ip⟩ := by
      obtain ⟨world, result, machine, rfl, spent, resumes | ends⟩ | ⟨next, moved, -⟩ :=
        under_step idle under
      · have failed := eq_error_of_afterAct (resumes.symm.trans ended)
        have leaves := Act.leaves_resume setting.program.limits caller.pending result ⟨world, machine⟩
        rw [failed] at leaves
        exact leaves.kept.trans (spent.scene.trans scene)
      · cases ends.symm.trans ended
        exact spent.scene.trans scene
      · cases moved.symm.trans ended
    exact ⟨congrArg Scene.setup same, fun _ => congrArg Scene.opIp same⟩

end Execution

end ScriptMachine
