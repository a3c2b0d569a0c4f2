import ScriptMachine.Proofs.SessionHistories
import ScriptMachine.Proofs.Aborting
import ScriptMachine.Proofs.SelfCalls

/-! What stops a machine without a fault. Only two operations do: one that says so, and a return when
there is no other frame to go on in. After any other the machine goes on, or waits for a call. -/

namespace ScriptMachine

theorem Opcode.byte_of_ofByte? {byte : UInt8} {op : Opcode} (found : ofByte? byte = some op) :
    op.byte = byte := by
  unfold ofByte? at found
  split at found
  all_goals cases found
  all_goals rfl

theorem Opcode.eq_of_byte_eq {op other : Opcode} (same : op.byte = other.byte) : op = other := by
  have known := op.ofByte?_byte
  rw [same, ofByte?_byte] at known
  exact (Option.some.inj known).symm

def Machine.fetched (machine : Machine) : Machine :=
  { machine with ip := machine.ip + 1, opIp := machine.ip, ticks := machine.ticks + 1 }

/-- The machine goes on, or waits for the answer of a call that native code is to make. -/
inductive Next.Onward : Next → Prop where
  | proceed : Onward .proceed
  | call (request : Request) (pending : Pending) : Onward (.await (.call request) pending)
  | invoke (callee : Value) (context : CallContext) (pending : Pending) :
      Onward (.await (.invoke callee context) pending)

namespace Act

variable {α : Type}

/-- An act after which the machine goes on or waits for a call, if it does not fail. -/
def Goes (act : Act Next) : Prop := ∀ active next after, act active = .ok next after → next.Onward

namespace Goes

/-- Only the last thing that an act does tells how the machine goes on. -/
theorem after {first : Act α} {rest : α → Act Next} (next : ∀ value, Goes (rest value)) :
    Goes (first >>= rest) := by
  intro active onward last done
  obtain ⟨value, middle, -, ended⟩ := bind_eq_ok done
  exact next value middle onward last ended

theorem ite {condition : Prop} [Decidable condition] {yes no : Act Next} (positive : Goes yes)
    (negative : Goes no) : Goes (if condition then yes else no) := by
  split
  · exact positive
  · exact negative

end Goes

theorem goes_pure {next : Next} (onward : next.Onward) : Goes (pure next) := by
  intro active given after done
  cases done
  exact onward

theorem goes_proceed : Goes (pure .proceed) := goes_pure .proceed

theorem goes_fail (fault : Fault) : Goes (fail fault) := by
  intro active next after done
  cases done

theorem goes_failHere : Goes failHere := by
  intro active next after done
  cases done

theorem goes_thenProceed (act : Act Unit) : Goes (thenProceed act) := .after fun _ => goes_proceed

theorem goes_walk (assignment : Assignment) (container : Value) (rest : List Value) :
    Goes (walk assignment container rest) := by
  induction rest generalizing container with
  | nil =>
    refine .after fun answer => ?_
    cases answer with
    | value value => exact goes_proceed
    | call property request => exact goes_pure (.call _ _)
  | cons selector rest ih =>
    refine .after fun answer => ?_
    cases answer with
    | value value => exact ih value
    | call property request => exact goes_pure (.call _ _)

theorem goes_assignPath (target : Value) (count : Nat) : Goes (assignPath target count) := by
  refine .after fun selectors => .after fun value => ?_
  split
  · exact goes_failHere
  · exact goes_walk _ _ _

theorem goes_access (program : Program) (op : Opcode) : Goes (access program op) := by
  cases op with
  | pushUndefined | pushDefault | pushTrue | pushFalse => exact goes_thenProceed _
  | pop => exact .after fun _ => goes_proceed
  | constant =>
    refine .after fun index => ?_
    split
    · exact goes_thenProceed _
    · exact goes_failHere
  | getBuiltin =>
    refine .after fun index => ?_
    split
    · exact goes_thenProceed _
    · exact goes_failHere
  | getGlobal | setGlobal | defineLocal | getFreeBox =>
    exact .after fun _ => .after fun _ => goes_thenProceed _
  | getLocal | setFree | getFree =>
    exact .after fun _ => .after fun _ => .after fun _ => goes_thenProceed _
  | setLocal =>
    refine .after fun index => .after fun value => .after fun held => ?_
    split
    · exact goes_thenProceed _
    · exact goes_thenProceed _
  | getLocalBox =>
    refine .after fun index => .after fun held => ?_
    split
    · exact goes_thenProceed _
    · exact .after fun _ => .after fun _ => goes_thenProceed _
  | setGlobalPath => exact .after fun _ => .after fun _ => .after fun _ => goes_assignPath _ _
  | setLocalPath | setFreePath =>
    exact .after fun _ => .after fun _ => .after fun _ => .after fun _ => goes_assignPath _ _
  | _ => exact goes_fail _

theorem goes_operator (limits : Limits) (op : Opcode) : Goes (operator limits op) := by
  cases op with
  | binary =>
    refine .after fun token => ?_
    split
    · exact goes_failHere
    · exact .after fun _ => .after fun _ => .after fun _ => goes_thenProceed _
  | equal | notEqual | complement | negate =>
    exact .after fun _ => .after fun _ => .after fun _ => goes_thenProceed _
  | logicalNot => exact .after fun _ => .after fun _ => goes_thenProceed _
  | _ => exact goes_fail _

theorem goes_control {op : Opcode} (other : op ≠ .suspend) : Goes (control op) := by
  cases op with
  | suspend => exact absurd rfl other
  | jump => exact .after fun _ => goes_thenProceed _
  | jumpFalsy =>
    refine .after fun target => .after fun value => .after fun falsy => ?_
    exact .ite (goes_thenProceed _) goes_proceed
  | andJump =>
    refine .after fun target => .after fun value => .after fun falsy => ?_
    exact .ite (goes_thenProceed _) (.after fun _ => goes_proceed)
  | orJump =>
    refine .after fun target => .after fun value => .after fun falsy => ?_
    exact .ite (.after fun _ => goes_proceed) (goes_thenProceed _)
  | _ => exact goes_fail _

theorem goes_containers (limits : Limits) (op : Opcode) : Goes (containers limits op) := by
  cases op with
  | array =>
    exact .after fun _ => .after fun _ => .after fun _ => .after fun _ => goes_thenProceed _
  | map =>
    refine .after fun count => .after fun elements => .after fun store => ?_
    exact .after fun _ => .after fun _ => .after fun _ => goes_thenProceed _
  | error => exact .after fun _ => .after fun _ => .after fun _ => goes_thenProceed _
  | freeze =>
    refine .after fun value => ?_
    split
    · exact goes_thenProceed _
    · exact goes_thenProceed _
    · exact goes_thenProceed _
  | index =>
    refine .after fun index => .after fun target => .after fun answer => ?_
    cases answer with
    | value value => exact .after fun _ => goes_proceed
    | call property request => exact goes_pure (.call _ _)
  | slice =>
    exact .after fun _ => .after fun _ => .after fun _ => .after fun _ => goes_thenProceed _
  | _ => exact goes_fail _

theorem goes_call (around : Surroundings) : Goes (call around) := by
  refine .after fun site => .after fun target => ?_
  cases target with
  | function ref arguments => exact .after fun _ => goes_proceed
  | native callee context fromStack => exact goes_pure (.invoke _ _ _)

theorem goes_functions (around : Surroundings) {op : Opcode} (other : op ≠ .ret) :
    Goes (functions around op) := by
  cases op with
  | ret => exact absurd rfl other
  | call => exact goes_call around
  | closure => exact goes_thenProceed _
  | callee => exact .after fun _ => goes_thenProceed _
  | callArguments | callKeywords => exact .after fun _ => .after fun _ => goes_thenProceed _
  | _ => exact goes_fail _

theorem goes_iteration (limits : Limits) (op : Opcode) : Goes (iteration limits op) := by
  cases op with
  | iterate =>
    refine .after fun value => .after fun store => .after fun sequence => ?_
    exact .after fun _ => .after fun _ => goes_thenProceed _
  | iteratorNext | iteratorKey | iteratorValue =>
    exact .after fun _ => .after fun _ => goes_thenProceed _
  | _ => exact goes_fail _

theorem goes_execute (around : Surroundings) {op : Opcode} (suspends : op ≠ .suspend)
    (returns : op ≠ .ret) : Goes (execute around op) := by
  rcases execute_cases around op with same | same | same | same | same | same <;> rw [same]
  · exact goes_access _ op
  · exact goes_operator _ op
  · exact goes_control suspends
  · exact goes_containers _ op
  · exact goes_functions around returns
  · exact goes_iteration _ op

variable {around : Surroundings} {active after : Active} {next : Next}

theorem fetch_eq_ok {op : Opcode} (fetched : fetch active = .ok op after) :
    active.machine.code[active.machine.ip]? = some op.byte ∧
      after = ⟨active.world, active.machine.fetched⟩ := by
  unfold fetch at fetched
  dsimp only at fetched
  split at fetched
  · cases fetched
  next byte found =>
    split at fetched
    · cases fetched
    next known =>
      cases fetched
      exact ⟨by rw [found, Opcode.byte_of_ofByte? known], rfl⟩

/-- An instruction that does not fail is the operation at the place where the code goes on. -/
theorem step_eq_ok (stepped : step around active = .ok next after) :
    ∃ op : Opcode, active.machine.code[active.machine.ip]? = some op.byte ∧
      execute around op ⟨active.world, active.machine.fetched⟩ = .ok next after := by
  obtain ⟨_, looked, observed, rest⟩ := bind_eq_ok stepped
  obtain ⟨op, read, fetched, executed⟩ := bind_eq_ok rest
  have same : looked = active := by
    unfold observe at observed
    dsimp only at observed
    split at observed
    · cases observed
    · split at observed
      · cases observed
      · cases observed
        rfl
  subst same
  obtain ⟨found, rfl⟩ := fetch_eq_ok fetched
  exact ⟨op, found, executed⟩

/-- What a machine waits for is a call that native code is to make. -/
theorem onward_of_await {task : Task} {pending : Pending}
    (stepped : step around active = .ok (.await task pending) after) :
    (Next.await task pending).Onward := by
  obtain ⟨op, found, executed⟩ := step_eq_ok stepped
  by_cases suspends : op = .suspend
  · subst suspends
    cases executed
  · by_cases returns : op = .ret
    · subst returns
      obtain ⟨value, popped, -, left⟩ := bind_eq_ok executed
      obtain ⟨depth, _, read, last⟩ := bind_eq_ok left
      split at last
      · cases last
      · exact goes_thenProceed _ _ _ _ last
    · exact goes_execute around suspends returns _ _ _ executed

/-- An instruction that goes on with an answer neither halts nor asks for anything but a call. -/
theorem goes_resume (limits : Limits) (pending : Pending) (result : Except Fault Value) :
    Goes (resume limits pending result) := by
  refine .after fun value => ?_
  cases pending with
  | push held => exact goes_thenProceed _
  | walk assignment rest held => exact goes_walk _ _ _
  | finish held => exact goes_proceed
  | native start fromStack => exact goes_thenProceed _
  | host => exact goes_proceed

end Act

end ScriptMachine
