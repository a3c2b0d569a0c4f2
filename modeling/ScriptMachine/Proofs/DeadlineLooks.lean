import ScriptMachine.Proofs.DepthLimits
import ScriptMachine.Proofs.Halting

/-! When the machines of a run look at its deadline. A machine that goes on has begun another instruction,
one that starts needs new cells, and one that stops leaves fewer machines around the next. So no two looks
fall on one moment, and each of them may find what it will. -/

namespace ScriptMachine

/-- Cells have been added since a moment, or a machine has stopped, or only instructions have been begun. -/
inductive Moment.Until (first second : Moment) : Prop where
  | grown (cells : first.cells < second.cells)
  | left (cells : first.cells ≤ second.cells) (nesting : second.nesting < first.nesting)
  | worked (cells : first.cells ≤ second.cells) (nesting : second.nesting = first.nesting)
      (ticks : first.ticks ≤ second.ticks)

theorem Moment.Until.trans {first second third : Moment} (until' : first.Until second)
    (further : second.Until third) : first.Until third := by
  cases until' with
  | grown cells =>
    cases further with
    | grown more => exact .grown (cells.trans more)
    | left more => exact .grown (Nat.lt_of_lt_of_le cells more)
    | worked more => exact .grown (Nat.lt_of_lt_of_le cells more)
  | left cells nesting =>
    cases further with
    | grown more => exact .grown (Nat.lt_of_le_of_lt cells more)
    | left more fewer => exact .left (cells.trans more) (fewer.trans nesting)
    | worked more same => exact .left (cells.trans more) (same ▸ nesting)
  | worked cells nesting ticks =>
    cases further with
    | grown more => exact .grown (Nat.lt_of_le_of_lt cells more)
    | left more fewer => exact .left (cells.trans more) (nesting ▸ fewer)
    | worked more same later => exact .worked (cells.trans more) (same.trans nesting) (ticks.trans later)

namespace Machine

variable {limits : Limits} {machine after : Machine}

theorem ticks_popFrame (machine : Machine) (result : Value) :
    (machine.popFrame result).ticks = machine.ticks := by
  unfold popFrame
  split <;> rfl

theorem Moves.ticks_le (moves : Moves limits machine after) : machine.ticks ≤ after.ticks := by
  induction moves with
  | refl => exact Nat.le_refl _
  | tail _ move ih =>
    refine ih.trans ?_
    cases move with
    | seek ip opIp later => exact later
    | leave result => exact Nat.le_of_eq (ticks_popFrame _ result).symm
    | _ => exact Nat.le_refl _

end Machine

namespace Execution

/-- The moment of the next look, if it came now. -/
def moment (execution : Execution) : Moment := execution.control.active.moment execution.world.store

/-- The first moment at which the look after the next step can come. -/
def due (execution : Execution) : Moment :=
  match execution.control with
  | .running .. => { execution.moment with ticks := execution.moment.ticks + 1 }
  | .native .. => execution.moment

theorem until_due (execution : Execution) : execution.moment.Until execution.due := by
  obtain ⟨world, machine | _⟩ := execution
  · exact .worked (Nat.le_refl _) rfl (Nat.le_succ _)
  · exact .worked (Nat.le_refl _) rfl (Nat.le_refl _)

end Execution

/-- If an execution goes on, the moment is not before this one. -/
def Progress.Since (first : Moment) : Progress → Prop
  | .next execution => first.Until execution.moment
  | .done .. | .broken => True

namespace Execution

variable {limits : Limits} {setting : Setting} {first : Moment} {active : Active} {chain : List Suspended}
  {before : Execution} {size : Nat}

theorem size_release (world : World) (serves : Option Ref) :
    (world.release serves).store.cells.size = world.store.cells.size := by
  cases serves with
  | none => rfl
  | some function => exact Array.size_modify

theorem since_finish (result : Except Fault Value) (cells : first.cells ≤ active.world.store.cells.size)
    (outer : active.machine.nesting = (chain.map (·.machine)).length)
    (nested : Nested limits (chain.map (·.machine))) (nesting : active.machine.nesting = first.nesting) :
    (finish active result chain).Since first := by
  cases chain with
  | nil => trivial
  | cons caller chain =>
    have fewer : caller.machine.nesting < first.nesting := by
      cases nested with
      | inside around =>
        rw [← nesting, outer, around.nesting]
        exact Nat.lt_succ_self _
    obtain ⟨answer, -, -, same⟩ | ⟨-, same⟩ := finish_cons_cases active result caller chain
    · rw [same]
      exact .left (cells.trans (Nat.le_of_eq (size_release _ _).symm)) fewer
    · rw [same]
      trivial

theorem since_afterAct {act : Act Next} (tame : act.Tame)
    (ticks : ∀ next after, act active = .ok next after → first.ticks ≤ after.machine.ticks)
    (cells : first.cells ≤ active.world.store.cells.size) (nesting : active.machine.nesting = first.nesting)
    (nested : Nested limits (active.machine :: chain.map (·.machine))) :
    (afterAct chain (act active)).Since first := by
  have left := tame active
  have more := cells.trans left.world.spared.size
  have same : (Act.final (act active)).machine.nesting = active.machine.nesting :=
    congrArg Station.nesting left.kept
  cases nested with
  | inside placed around =>
    have outer : (Act.final (act active)).machine.nesting = (chain.map (·.machine)).length :=
      same.trans placed.nesting
    cases done : act active with
    | ok next after =>
      rw [done] at more same outer
      cases next with
      | proceed => exact .worked more (same.trans nesting) (ticks _ _ done)
      | await task pending => exact .worked more (same.trans nesting) (ticks _ _ done)
      | halt => exact since_finish _ more outer around (same.trans nesting)
    | error stop after =>
      rw [done] at more same outer
      cases stop with
      | fault fault => exact since_finish _ more outer around (same.trans nesting)
      | outOfRange => trivial

theorem since_turn {progress : Progress} (turn : Turn setting before progress)
    (sound : before.control.Sound setting.program.limits size)
    (nested : Nested setting.program.limits before.control.machines) : progress.Since before.due := by
  cases turn with
  | @instruction world machine chain =>
    refine since_afterAct (Act.tame_step _) (fun next after stepped => ?_) (Nat.le_refl _) rfl nested
    obtain ⟨op, -, executed⟩ := Act.step_eq_ok stepped
    have begun : machine.fetched.Sound (slotsAbove setting.program.limits size chain) :=
      (sound.1 : machine.Sound _).move
        (show Machine.Move setting.program.limits machine machine.fetched from .seek _ _ (Nat.le_succ _))
    have travelled := Act.steps_execute ⟨setting.program, fun _ => setting.outside chain⟩ op
      ⟨world, machine.fetched⟩ begun trivial
    rw [executed] at travelled
    exact travelled.1.ticks_le
  | @completion world result machine pending chain waits =>
    cases sound with
    | cons whole ready below =>
      refine since_afterAct (Act.orderly_resume _ _ _).tame (fun next after done => ?_) (Nat.le_refl _) rfl
        nested
      have travels : Act.Travels setting.program.limits (slotsAbove setting.program.limits size chain)
          (fun machine => pending.Ready machine.sp) (Act.resume setting.program.limits pending result)
          fun next machine => next.Ready machine :=
        Act.travels_resume _ _ _
      have travelled := travels ⟨world, machine⟩ whole ready
      rw [done] at travelled
      exact travelled.1.ticks_le
  | reply => trivial
  | native natives silent continues follows =>
    exact .worked follows.spared.size rfl (Nat.le_refl _)
  | child natives function arguments keywords silent allowed under idle follows grows => exact .grown grows

theorem until_reaches {after : Execution} (sound : before.control.Sound setting.program.limits size)
    (nested : Nested setting.program.limits before.control.machines)
    (reached : Reaches setting before after) : before.moment.Until after.moment := by
  induction reached with
  | refl => exact .worked (Nat.le_refl _) rfl (Nat.le_refl _)
  | tail earlier stepped ih =>
    have since := since_turn (turn_step setting _) (sound_reaches sound earlier)
      (nested_reaches sound nested earlier)
    rw [stepped] at since
    exact ih.trans ((until_due _).trans since)

end Execution

/-- No two looks of a run fall on one moment. -/
theorem Session.looks_differ {session : Session} {deadline : Deadline} {start machine other : Machine}
    {world later : World} {chain waiting : List Suspended} {next : Execution}
    (started : session.startMachine deadline = .ok start)
    (reached : Execution.Reaches (session.setting []) ⟨session.world, .running start []⟩
      ⟨world, .running machine chain⟩)
    (stepped : Execution.step (session.setting []) ⟨world, .running machine chain⟩ = .next next)
    (onward : Execution.Reaches (session.setting []) next ⟨later, .running other waiting⟩) :
    machine.moment world.store ≠ other.moment later.store := by
  have sound : (Control.running start []).Sound session.program.limits session.machine.stack.size :=
    ⟨sound_startMachine started, .nil⟩
  have nested := nested_startMachine started
  have onSound := Execution.sound_reaches sound reached
  have onNested := Execution.nested_reaches sound nested reached
  have since := Execution.since_turn (Execution.turn_step (session.setting []) _) onSound onNested
  rw [stepped] at since
  have nextSound := Execution.sound_reaches sound (reached.tail stepped)
  have nextNested := Execution.nested_reaches sound nested (reached.tail stepped)
  have passed := since.trans (Execution.until_reaches nextSound nextNested onward)
  intro same
  cases passed with
  | grown cells => exact absurd (congrArg Moment.cells same) (Nat.ne_of_lt cells)
  | left cells nesting => exact absurd (congrArg Moment.nesting same).symm (Nat.ne_of_lt nesting)
  | worked cells nesting ticks => exact absurd (congrArg Moment.ticks same) (Nat.ne_of_lt ticks)

end ScriptMachine
