import ScriptMachine.Proofs.ExecutionSafety
import ScriptMachine.Proofs.InstructionCosts
import ScriptMachine.Proofs.SelfCalls

/-! Objects that are made without a charge. Eight operations can make them, and one of these in a loop
makes any number of them, however small the allowance is. -/

namespace ScriptMachine

namespace Act

variable {limits : Limits} {around : Surroundings} {world : World} {machine : Machine}

/-- In this state the act completes with more objects than before and no less of the budget. -/
def GrowsFree (act : Act Next) (active : Active) : Prop :=
  match act active with
  | .ok _ after => active.world.store.made < after.world.store.made ∧
      ¬after.machine.budget < active.machine.budget
  | .error .. => False

instance (act : Act Next) (active : Active) : Decidable (GrowsFree act active) :=
  match done : act active with
  | .ok _ after => decidable_of_iff (active.world.store.made < after.world.store.made ∧
      ¬after.machine.budget < active.machine.budget) (by simp only [GrowsFree, done])
  | .error .. => .isFalse (by simp [GrowsFree, done])

theorem Costs.not_growsFree {act : Act Next} (costs : Costs limits .fair act)
    (limited : 0 ≤ limits.maxAllocations) (active : Active) : ¬GrowsFree act active := by
  unfold GrowsFree
  cases done : act active with
  | ok next after =>
    rintro ⟨grown, kept⟩
    cases costs.met limited active next after done with
    | inl same => omega
    | inr charged => exact kept charged
  | error stop after => exact id

/-- A type, its tables, a box that holds it and a variadic function, with the type in a global. -/
def growing (code : Array UInt8) (stack : Array Value) (sp : Nat) : Active where
  world :=
    { store := { cells := #[.type { name := "T", fields := 1, methods := 2, properties := 3 },
        .members .field {}, .members .method {}, .members .property {}, .box (.type 0),
        .function { code := { variadic := true } }] }
      globals := #[.type 0] }
  machine :=
    { stack, sp, code
      calls := CallStack.empty.push { function := none, code := {}, free := #[4] }
      budget := 1 }

/-- For each operation that is not charged, a state in which it makes an object. An assignment along
a path gives the type a new table of fields, and an index gives its tags in a new map. -/
def growingAt : Opcode → Active
  | .getLocalBox => growing #[0] #[.undefined, .undefined] 1
  | .setGlobalPath => growing #[0, 0, 1] #[.undefined, .string "fields"] 2
  | .setLocalPath => growing #[0, 1] #[.type 0, .undefined, .string "fields"] 3
  | .setFreePath => growing #[0, 1] #[.undefined, .string "fields"] 2
  | .index => growing #[] #[.type 0, .string "tags"] 2
  | .call => growing #[0, 0, 0, 0] #[.function 5, .undefined] 1
  | _ => growing #[] #[.undefined] 0

theorem growsFree_growingAt {op : Opcode} (uncharged : op.price = .any) :
    GrowsFree (execute ⟨{ main := 0, limits := { maxAllocations := 0 } }, fun _ => []⟩ op)
      (growingAt op) := by
  cases op with
  | getLocalBox => decide +kernel
  | setGlobalPath => decide +kernel
  | setLocalPath => decide +kernel
  | setFreePath => decide +kernel
  | index => decide +kernel
  | call => decide +kernel
  | callArguments => decide +kernel
  | callKeywords => decide +kernel
  | _ => cases uncharged

/-- An operation is charged for every object it makes, in every state and under every limit, unless
it is one of those without a price. -/
theorem price_ne_any_iff (op : Opcode) : op.price ≠ .any ↔
    ∀ around active, 0 ≤ around.program.limits.maxAllocations →
      ¬GrowsFree (execute around op) active := by
  constructor
  · intro priced around active limited
    have costs := costs_execute around op
    cases price : op.price with
    | fair =>
      rw [price] at costs
      exact costs.not_growsFree limited active
    | charged =>
      rw [price] at costs
      exact costs.fair.not_growsFree limited active
    | any => exact absurd price priced
  · intro charged uncharged
    exact charged ⟨{ main := 0, limits := { maxAllocations := 0 } }, fun _ => []⟩ (growingAt op)
      (Int.le_refl 0) (growsFree_growingAt uncharged)

theorem not_growsFree_resume (pending : Pending) : pending.price = .any ∨
    ∀ limits result active, 0 ≤ limits.maxAllocations →
      ¬GrowsFree (resume limits pending result) active := by
  have costs (limits : Limits) (result : Except Fault Value) :=
    @costs_resume limits pending result
  cases pending with
  | walk assignment rest held => exact .inl rfl
  | _ => exact .inr fun limits result active limited =>
      (costs limits result).not_growsFree limited active

theorem execute_callArguments {frame : Frame} {callers : List Frame}
    (running : machine.frames = frame :: callers) (room : machine.sp < machine.stack.size) :
    execute around .callArguments ⟨world, machine⟩ = .ok .proceed
      ⟨{ world with store :=
          { world.store with cells := world.store.cells.push (.array frame.arguments) } },
        { machine with
          stack := machine.stack.setIfInBounds machine.sp (.array .frozen world.store.cells.size)
          sp := machine.sp + 1 }⟩ := by
  show (Act.frame >>= _) _ = _
  have top : Act.frame ⟨world, machine⟩ = .ok frame ⟨world, machine⟩ := by
    simp only [Act.frame, running]
  rw [bind_of_ok top]
  show (thenProceed (push _)) _ = _
  simp only [thenProceed, push, Bind.bind, EStateM.bind, if_pos room]
  rfl

theorem execute_jump {target : Nat}
    (found : Instruction.readPair? machine.code machine.ip = some target) :
    execute around .jump ⟨world, machine⟩ = .ok .proceed ⟨world, { machine with ip := target }⟩ := by
  show (readPair >>= _) _ = _
  simp only [Bind.bind, EStateM.bind, readPair, found]
  rfl

end Act

namespace Execution

variable {setting : Setting} {world : World} {machine : Machine} {chain : List Suspended} {op : Opcode}

theorem step_of_calm (calm : world.aborting = false) (timely : machine.expiry? world.store = none)
    (found : machine.code[machine.ip]? = some op.byte) :
    step setting ⟨world, .running machine chain⟩ =
      afterAct chain (Act.execute ⟨setting.program, fun _ => setting.outside chain⟩ op
        ⟨world, { machine with
          ip := machine.ip + 1, opIp := machine.ip, ticks := machine.ticks + 1 }⟩) := by
  have observed := Act.observe_timely calm timely
  have fetched := Act.fetch_eq world found
  simp only [step, Act.step, Bind.bind, EStateM.bind, observed, fetched]

theorem step_of_execute {after : Active} (calm : world.aborting = false)
    (timely : machine.expiry? world.store = none) (found : machine.code[machine.ip]? = some op.byte)
    (done : Act.execute ⟨setting.program, fun _ => setting.outside chain⟩ op ⟨world, { machine with
      ip := machine.ip + 1, opIp := machine.ip, ticks := machine.ticks + 1 }⟩ =
        .ok .proceed after) :
    step setting ⟨world, .running machine chain⟩ = .next ⟨after.world, .running after.machine chain⟩ := by
  rw [step_of_calm calm timely found, done]
  rfl

end Execution

namespace Session

/-- Code that takes the arguments of its call, drops them and starts again. -/
def hoardingCode : FunctionCode :=
  { instructions := assemble [⟨.callArguments, []⟩, ⟨.pop, []⟩, ⟨.jump, [0]⟩] }

def hoarding (limits : Limits) : Session where
  program := { main := 0, limits }
  host := .standard
  world := { store := { cells := #[.function { code := hoardingCode }] } }
  machine := .blank limits hoardingCode

/-- A machine at the start of a round. -/
structure Hoards (machine : Machine) : Prop where
  code : machine.code = hoardingCode.instructions
  ip : machine.ip = 0
  sp : machine.sp = 0
  room : 0 < machine.stack.size
  running : ∃ frame callers, machine.frames = frame :: callers
  unlimited : machine.deadline = .unlimited

/-- A round makes one array and is charged nothing. -/
theorem Hoards.round {setting : Setting} {world : World} {machine : Machine}
    (hoards : Hoards machine) (calm : world.aborting = false) :
    ∃ later after, Execution.Reaches setting ⟨world, .running machine []⟩
        ⟨later, .running after []⟩ ∧
      later.aborting = false ∧ later.store.made = world.store.made + 1 ∧
      after.budget = machine.budget ∧ Hoards after := by
  obtain ⟨stack, sp, calls, outerFrames, nesting, code, ip, opIp, ticks, budget, deadline, serves⟩ :=
    machine
  obtain ⟨rfl, rfl, rfl, room, ⟨frame, callers, running⟩, rfl⟩ := hoards
  let moved (stack : Array Value) (sp ip opIp ticks : Nat) : Machine :=
    ⟨stack, sp, calls, outerFrames, nesting, hoardingCode.instructions, ip, opIp, ticks, budget,
      .unlimited, serves⟩
  let later : World := { world with store :=
    { world.store with cells := world.store.cells.push (.array frame.arguments) } }
  let filled := stack.setIfInBounds 0 (.array .frozen world.store.cells.size)
  have quiet : later.aborting = false := calm
  have timely (stack : Array Value) (sp ip opIp ticks : Nat) (store : Store) :
      (moved stack sp ip opIp ticks).expiry? store = none := Machine.expiry?_of_unlimited rfl store
  have taken : Execution.step setting ⟨world, .running (moved stack 0 0 opIp ticks) []⟩ =
      .next ⟨later, .running (moved filled 1 1 0 (ticks + 1)) []⟩ :=
    Execution.step_of_execute calm (timely ..) rfl (Act.execute_callArguments running room)
  have dropped : Execution.step setting ⟨later, .running (moved filled 1 1 0 (ticks + 1)) []⟩ =
      .next ⟨later, .running (moved (filled.setIfInBounds 0 .undefined) 0 2 1 (ticks + 2)) []⟩ :=
    Execution.step_of_execute quiet (timely ..) rfl
      (Act.execute_pop _ later rfl (Array.getElem?_setIfInBounds_self_of_lt room))
  have target : Instruction.readPair? hoardingCode.instructions 3 = some 0 := by decide
  have again : Execution.step setting
      ⟨later, .running (moved (filled.setIfInBounds 0 .undefined) 0 2 1 (ticks + 2)) []⟩ =
      .next ⟨later, .running (moved (filled.setIfInBounds 0 .undefined) 0 0 2 (ticks + 3)) []⟩ :=
    Execution.step_of_execute quiet (timely ..) rfl (Act.execute_jump target)
  refine ⟨later, moved (filled.setIfInBounds 0 .undefined) 0 0 2 (ticks + 3),
    .head taken (.head dropped (.single again)), quiet, ?_, rfl, ?_⟩
  · simp only [later, Store.made, Array.size_push]
    omega
  · exact ⟨rfl, rfl, rfl, by simpa [moved, filled] using room, ⟨frame, callers, running⟩, rfl⟩

theorem hoards_startMachine {limits : Limits} {machine : Machine} (room : 0 < limits.stackSize)
    (started : (hoarding limits).startMachine .unlimited = .ok machine) : Hoards machine := by
  simp only [startMachine] at started
  split at started
  · cases started
  · cases started
    refine ⟨rfl, rfl, rfl, ?_, ⟨_, _, rfl⟩, rfl⟩
    simpa [hoarding, Machine.blank] using room

/-- Any number of rounds can follow each other. -/
theorem Hoards.rounds {setting : Setting} {world : World} {machine : Machine}
    (hoards : Hoards machine) (calm : world.aborting = false) (count : Nat) :
    ∃ later after, Execution.Reaches setting ⟨world, .running machine []⟩
        ⟨later, .running after []⟩ ∧
      later.aborting = false ∧ later.store.made = world.store.made + count ∧
      after.budget = machine.budget ∧ Hoards after := by
  induction count with
  | zero => exact ⟨world, machine, .refl, calm, rfl, rfl, hoards⟩
  | succ count ih =>
    obtain ⟨middle, between, reached, quiet, made, budget, ready⟩ := ih
    obtain ⟨later, after, ran, still, more, same, again⟩ := ready.round quiet
    refine ⟨later, after, reached.trans ran, still, ?_,
      same.trans budget, again⟩
    rw [more, made, Nat.add_assoc]

end Session

/-- An operation is charged for what it makes exactly if it is not one of eight, and an instruction
that is completed by an answer is, unless it is an assignment along a path. The others leave the number
of objects unbounded: under any allowance, and with whatever other limits, a program that asks for the
arguments of its call again and again makes as many objects as one likes and has its whole allowance
left. -/
theorem objects_charged_unless (op : Opcode) (pending : Pending) (limits : Limits)
    (allowance room count : Nat) :
    (op.price ≠ .any ↔ ∀ around active, 0 ≤ around.program.limits.maxAllocations →
      ¬Act.GrowsFree (Act.execute around op) active) ∧
    (pending.price = .any ∨ ∀ limits result active, 0 ≤ limits.maxAllocations →
      ¬Act.GrowsFree (Act.resume limits pending result) active) ∧
    let session := Session.hoarding
      { limits with maxAllocations := allowance, stackSize := room + 1 }
    ∃ start execution, session.startMachine .unlimited = .ok start ∧
      Execution.Reaches (session.setting []) ⟨session.world, .running start []⟩ execution ∧
      execution.world.store.made = session.world.store.made + count ∧
      execution.control.active.budget = start.budget := by
  refine ⟨Act.price_ne_any_iff op, Act.not_growsFree_resume pending, ?_⟩
  intro session
  obtain ⟨start, started⟩ : ∃ start, session.startMachine .unlimited = .ok start := ⟨_, rfl⟩
  have hoards := Session.hoards_startMachine (Nat.succ_pos room) started
  obtain ⟨later, after, reached, -, made, budget, -⟩ :=
    @Session.Hoards.rounds (session.setting []) session.world start hoards rfl count
  exact ⟨start, ⟨later, .running after []⟩, started, reached, made, budget⟩

/-- A session without any allowance, whose main function asks for the arguments of its call once. -/
def hoardingOnce : Session where
  program := { main := 0, limits := { stackSize := 4, maxAllocations := 0 } }
  host := .standard
  world := { store := { cells := #[.function { code :=
    { instructions := assemble [⟨.callArguments, []⟩, ⟨.pop, []⟩, ⟨.suspend, []⟩] } }] } }
  machine := .blank { stackSize := 4, maxAllocations := 0 } {}

/-- The run is completed with one object more than before and nothing taken from the budget. -/
theorem objects_charged_unless_hoarded :
    hoardingOnce.world.store.made = 1 ∧ hoardingOnce.machine.budget = 1 ∧
    (match Session.run 3 .unlimited hoardingOnce with
      | .ok .completed after => some (after.world.store.made, after.machine.budget)
      | _ => none) = some (2, 1) := by
  decide +kernel

end ScriptMachine
