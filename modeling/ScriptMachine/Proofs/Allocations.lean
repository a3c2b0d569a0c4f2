import ScriptMachine.Proofs.ExecutionSafety
import ScriptMachine.Proofs.InstructionCosts
import Mathlib

/-! The allowance of allocations over a whole run. Machines hand their budget to the machines they
start and take back what is left, so the charges of all machines of a run, one after the other, are
those of a single account: as many as allowed are granted, and no later one is. -/

namespace ScriptMachine

/-- The machine that is at work after a step, or that the step has ended with, has this budget. -/
def Progress.Leaves (budget : Int) : Progress → Prop
  | .next execution => execution.control.active.budget = budget
  | .done _ machine _ => machine.budget = budget
  | .broken => True

namespace Execution

variable {setting : Setting} {start execution : Execution} {log further : List Bool}

/-- The charges that the next step makes. Native code makes none. -/
def Charges (setting : Setting) (execution : Execution) (log : List Bool) : Prop :=
  match act? setting execution with
  | some (act, active) => Act.Ledger setting.program.limits act active log
  | none => log = []

/-- The charges of a run up to a state, by all its machines one after the other. -/
inductive Account (setting : Setting) (start : Execution) : List Bool → Execution → Prop where
  | opened : Account setting start [] start
  | entered {before after : Execution} {log further : List Bool}
      (earlier : Account setting start log before) (charges : Charges setting before further)
      (stepped : step setting before = .next after) :
      Account setting start (log ++ further) after

theorem act?_completion {world : World} {result : Except Fault Value} {machine : Machine}
    {pending : Pending} {chain : List Suspended} (waits : pending ≠ .host) :
    act? setting ⟨world, .native (.answer result) ⟨machine, pending, []⟩ chain⟩ =
      some (Act.resume setting.program.limits pending result, ⟨world, machine⟩) := by
  cases pending with
  | host => exact absurd rfl waits
  | _ => rfl

theorem exists_charges (setting : Setting) (execution : Execution) :
    ∃ log, Charges setting execution log := by
  have turn := turn_step setting execution
  generalize step setting execution = progress at turn
  cases turn with
  | instruction => exact (Act.costs_step ⟨setting.program, _⟩).ledger _
  | completion waits =>
    simp only [Charges, act?_completion waits]
    exact (Act.costs_resume _ _).ledger _
  | reply => exact ⟨[], rfl⟩
  | native natives silent => exact ⟨[], by simp only [Charges, silent]⟩
  | child natives function arguments keywords silent => exact ⟨[], by simp only [Charges, silent]⟩

theorem exists_account (reached : Reaches setting start execution) :
    ∃ log, Account setting start log execution := by
  induction reached with
  | refl => exact ⟨[], .opened⟩
  | tail _ stepped ih =>
    obtain ⟨log, account⟩ := ih
    obtain ⟨further, charges⟩ := exists_charges setting _
    exact ⟨log ++ further, .entered account charges stepped⟩

theorem leaves_finish (active : Active) (result : Except Fault Value) (chain : List Suspended) :
    (finish active result chain).Leaves active.machine.budget := by
  cases chain with
  | nil => rfl
  | cons caller chain =>
    obtain ⟨answer, -, -, same⟩ | ⟨-, same⟩ := finish_cons_cases active result caller chain
    · rw [same]
      rfl
    · rw [same]
      trivial

theorem leaves_afterAct (chain : List Suspended) (outcome : EStateM.Result Stop Active Next) :
    (afterAct chain outcome).Leaves (Act.final outcome).machine.budget := by
  cases outcome with
  | ok next after =>
    cases next with
    | proceed => rfl
    | halt => exact leaves_finish after _ chain
    | await task pending => rfl
  | error stop after =>
    cases stop with
    | fault fault => exact leaves_finish after _ chain
    | outOfRange => trivial

/-- Either the next step is an act of the machine at work and its charges are those of the act, or
native code is at work and nothing is charged. -/
theorem charges_cases (charges : Charges setting execution log) :
    (∃ act active, Act.Ledger setting.program.limits act active log ∧
      active.machine = execution.control.active ∧
      step setting execution = afterAct execution.control.waiting (act active)) ∨
    log = [] ∧ (step setting execution).Leaves execution.control.active.budget := by
  have turn := turn_step setting execution
  generalize step setting execution = progress at turn ⊢
  cases turn with
  | instruction => exact .inl ⟨_, _, charges, rfl, rfl⟩
  | completion waits =>
    simp only [Charges, act?_completion waits] at charges
    exact .inl ⟨_, _, charges, rfl, rfl⟩
  | reply => exact .inr ⟨charges, rfl⟩
  | native natives silent =>
    simp only [Charges, silent] at charges
    exact .inr ⟨charges, rfl⟩
  | child natives function arguments keywords silent =>
    simp only [Charges, silent] at charges
    exact .inr ⟨charges, rfl⟩

theorem leaves_step (limited : 0 ≤ setting.program.limits.maxAllocations)
    (charges : Charges setting execution log) :
    (step setting execution).Leaves (execution.control.active.budget - log.length) := by
  obtain ⟨act, active, ledger, same, stepped⟩ | ⟨rfl, kept⟩ := charges_cases charges
  · rw [stepped, ← same, ← ledger.budget_eq limited]
    exact leaves_afterAct _ _
  · simpa using kept

theorem charges_granted_iff (limited : 0 ≤ setting.program.limits.maxAllocations)
    (charges : Charges setting execution log) {index : Nat} {granted : Bool}
    (charged : log[index]? = some granted) :
    granted = true ↔ (index : Int) + 1 < execution.control.active.budget := by
  obtain ⟨act, active, ledger, same, -⟩ | ⟨rfl, -⟩ := charges_cases charges
  · rw [← same]
    exact ledger.granted_iff limited charged
  · cases charged

theorem step_refused (charges : Charges setting execution log) (refused : false ∈ log) :
    ∃ after, step setting execution =
      finish after (.error .allocationLimit) execution.control.waiting := by
  obtain ⟨act, active, ledger, -, stepped⟩ | ⟨rfl, -⟩ := charges_cases charges
  · obtain ⟨after, failed⟩ := ledger.eq_error refused
    refine ⟨after, ?_⟩
    rw [stepped, failed]
    rfl
  · cases refused

theorem charges_all_granted (unlimited : setting.program.limits.maxAllocations < 0)
    (charges : Charges setting execution log) : false ∉ log := by
  obtain ⟨act, active, ledger, -, -⟩ | ⟨rfl, -⟩ := charges_cases charges
  · exact ledger.all_granted unlimited
  · simp

/-- An account of an allowance: every charge has taken one, and as many as allowed were granted. -/
structure Balanced (allowance : Int) (log : List Bool) (budget : Int) : Prop where
  left : budget = allowance + 1 - log.length
  granted : ∀ (index : Nat) (granted : Bool), log[index]? = some granted →
    (granted = true ↔ (index : Int) < allowance)

theorem Balanced.append {allowance : Int} (limited : 0 ≤ setting.program.limits.maxAllocations)
    (balanced : Balanced allowance log execution.control.active.budget)
    (charges : Charges setting execution further) :
    Balanced allowance (log ++ further) (execution.control.active.budget - further.length) := by
  have left := balanced.left
  refine ⟨?_, ?_⟩
  · rw [List.length_append]
    omega
  · intro index granted charged
    by_cases early : index < log.length
    · rw [List.getElem?_append_left early] at charged
      exact balanced.granted index granted charged
    · rw [List.getElem?_append_right (Nat.le_of_not_lt early)] at charged
      rw [charges_granted_iff limited charges charged]
      omega

theorem account_balanced {allowance : Int} (limited : 0 ≤ setting.program.limits.maxAllocations)
    (begins : start.control.active.budget = allowance + 1)
    (account : Account setting start log execution) :
    Balanced allowance log execution.control.active.budget := by
  induction account with
  | opened => exact ⟨by simp [begins], by simp⟩
  | entered earlier charges stepped ih =>
    have left := leaves_step limited charges
    rw [stepped] at left
    have next := ih.append limited charges
    rw [← (left : _ = _)] at next
    exact next

theorem account_all_granted (unlimited : setting.program.limits.maxAllocations < 0)
    (account : Account setting start log execution) : false ∉ log := by
  induction account with
  | opened => simp
  | entered earlier charges stepped ih =>
    rw [List.mem_append]
    rintro (early | late)
    · exact ih early
    · exact charges_all_granted unlimited charges late

end Execution

namespace Session

theorem budget_startMachine {session : Session} {deadline : Deadline} {machine : Machine}
    (started : session.startMachine deadline = .ok machine)
    (small : session.program.limits.maxAllocations < maxSigned) :
    machine.budget = session.program.limits.maxAllocations + 1 := by
  simp only [startMachine] at started
  split at started
  · cases started
  · cases started
    exact Int.min_eq_left (Int.add_one_le_of_lt small)

/-- The charges of a run, by whichever of its machines, are those of one account. In every state as
much of the allowance is left as has not been charged; as many charges as allowed are granted and all
later ones refused, whatever became of the faults in between; and a machine that is refused one stops
there. Without a limit no charge is refused. -/
theorem allocations_accounted (session : Session) (deadline : Deadline) (machine : Machine)
    (started : session.startMachine deadline = .ok machine) (execution : Execution)
    (reached : Execution.Reaches (session.setting []) ⟨session.world, .running machine []⟩ execution) :
    (∃ log further,
      Execution.Account (session.setting []) ⟨session.world, .running machine []⟩ log execution ∧
      Execution.Charges (session.setting []) execution further) ∧
    ∀ log further,
      Execution.Account (session.setting []) ⟨session.world, .running machine []⟩ log execution →
      Execution.Charges (session.setting []) execution further →
        (0 ≤ session.program.limits.maxAllocations →
          session.program.limits.maxAllocations < maxSigned →
          execution.control.active.budget = session.program.limits.maxAllocations + 1 - log.length ∧
          (Execution.step (session.setting []) execution).Leaves
            (session.program.limits.maxAllocations + 1 - (log ++ further).length) ∧
          ∀ (index : Nat) (granted : Bool), (log ++ further)[index]? = some granted →
            (granted = true ↔ (index : Int) < session.program.limits.maxAllocations)) ∧
        (session.program.limits.maxAllocations < 0 → false ∉ log ++ further) ∧
        (false ∈ further → ∃ after, Execution.step (session.setting []) execution =
          Execution.finish after (.error .allocationLimit) execution.control.waiting) := by
  refine ⟨?_, ?_⟩
  · obtain ⟨log, account⟩ := Execution.exists_account reached
    obtain ⟨further, charges⟩ := Execution.exists_charges (session.setting []) execution
    exact ⟨log, further, account, charges⟩
  · intro log further account charges
    refine ⟨?_, ?_, Execution.step_refused charges⟩
    · intro limited small
      have balanced := Execution.account_balanced limited (budget_startMachine started small) account
      have next := balanced.append limited charges
      have left := Execution.leaves_step limited charges
      rw [next.left] at left
      exact ⟨balanced.left, left, next.granted⟩
    · intro unlimited
      rw [List.mem_append]
      rintro (early | late)
      · exact Execution.account_all_granted unlimited account early
      · exact Execution.charges_all_granted unlimited charges late

/-- A session that may make one allocation and whose main function makes two. -/
def thrifty : Session where
  program := { main := 0, limits := { stackSize := 2, maxAllocations := 1 } }
  host := .standard
  world := { store := { cells := #[.function
    { code := { instructions := assemble [⟨.array, [0]⟩, ⟨.array, [0]⟩] } }] } }
  machine := .blank { stackSize := 2 } {}

def thriftyMachine (stack : Array Value) (sp ip opIp ticks : Nat) (budget : Int) : Machine :=
  { stack, sp, ip, opIp, ticks, budget
    calls := CallStack.empty.push { function := some 0, code := thrifty.mainCode }
    code := thrifty.mainCode.instructions }

def thriftyOnce : Execution :=
  ⟨{ store := { cells := thrifty.world.store.cells.push (.array #[]) } },
    .running (thriftyMachine #[.array .writable 1, .undefined] 1 3 0 1 1) []⟩

/-- The second charge is refused, and the run ends there. -/
theorem allocations_accounted_thrifty :
    ∃ start, thrifty.startMachine .unlimited = .ok start ∧
      ∃ log further,
        Execution.Account (thrifty.setting []) ⟨thrifty.world, .running start []⟩ log thriftyOnce ∧
        Execution.Charges (thrifty.setting []) thriftyOnce further ∧
        log = [true] ∧ further = [false] ∧
        ∃ after, Execution.step (thrifty.setting []) thriftyOnce =
          Execution.finish after (.error .allocationLimit) [] := by
  let start := thriftyMachine #[.undefined, .undefined] 0 0 0 0 2
  have started : thrifty.startMachine .unlimited = .ok start := rfl
  have reached : Execution.Reaches (thrifty.setting []) ⟨thrifty.world, .running start []⟩
      thriftyOnce := Execution.reaches_of_run 1 (by cbv)
  have ends : Execution.step (thrifty.setting []) thriftyOnce = .done thriftyOnce.world
      (thriftyMachine #[.array .writable 1, .undefined] 1 6 3 2 0) (.error .allocationLimit) := by cbv
  obtain ⟨⟨log, further, account, charges⟩, every⟩ :=
    allocations_accounted thrifty .unlimited start started thriftyOnce reached
  obtain ⟨limited, -, refused⟩ := every log further account charges
  obtain ⟨left, after, granted⟩ := limited (by decide) (by decide)
  have once : log.length = 1 := by
    change (1 : Int) = 1 + 1 - log.length at left
    omega
  have twice : further.length = 1 := by
    rw [ends] at after
    change (0 : Int) = 1 + 1 - (log ++ further).length at after
    rw [List.length_append] at after
    omega
  obtain ⟨first, rfl⟩ := List.length_eq_one_iff.mp once
  obtain ⟨second, rfl⟩ := List.length_eq_one_iff.mp twice
  obtain rfl : first = true := (granted 0 first rfl).mpr (by decide)
  obtain rfl : second = false := by
    simpa [thrifty] using granted 1 second rfl
  exact ⟨start, started, [true], [false], account, charges, rfl, rfl, refused (by simp)⟩

end Session

end ScriptMachine
