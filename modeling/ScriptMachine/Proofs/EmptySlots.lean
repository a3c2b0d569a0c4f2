import ScriptMachine.Proofs.CodeOffsets

/-! Slots that are not in use are empty. A machine starts like that, and what instructions empty always
reaches up to where the slots were empty before, so a stack keeps nothing alive that has been taken off
it. Only writing a local variable above the slots in use could change that. -/

namespace ScriptMachine

namespace Machine

/-- The slots that are not in use are empty. -/
def Tidy (machine : Machine) : Prop :=
  ∀ slot, machine.sp ≤ slot → slot < machine.stack.size → machine.stack[slot]? = some .undefined

section Changes

variable {limits : Limits} {machine after : Machine} {place : Option Nat} {taken given : Nat}

/-- An instruction may write a slot if it is still in use once the instruction has taken its values. -/
theorem Shifts.tidy (shifts : machine.Shifts place taken given after) (tidy : machine.Tidy)
    (low : ∀ slot, place = some slot → slot < machine.sp - taken) : after.Tidy := by
  intro slot high inside
  have sp := shifts.sp
  have other : place ≠ some slot := fun same => by
    have := low slot same
    omega
  rw [shifts.above slot high other]
  split
  · rfl
  next beyond => exact tidy slot (Nat.le_of_not_lt beyond) (shifts.size ▸ inside)

theorem Tidy.loadSlots {base frameSize : Nat} {parameters : Array Value} (tidy : machine.Tidy)
    (few : parameters.size ≤ frameSize) (slot : Nat) (high : base + frameSize ≤ slot)
    (inside : slot < machine.stack.size) :
    (loadSlots machine.stack base (max machine.sp (base + frameSize)) parameters)[slot]? =
      some .undefined := by
  rw [getElem?_loadSlots _ _ _ _ _ inside, if_neg (by omega)]
  split
  · rfl
  next beyond => exact tidy slot (by omega) inside

theorem Tidy.pushFrame {frame : Frame} {parameters : Array Value} (tidy : machine.Tidy)
    (few : parameters.size ≤ frame.code.frameSize) : (machine.pushFrame frame parameters).Tidy := by
  intro slot high inside
  refine tidy.loadSlots few slot high ?_
  exact size_loadSlots .. ▸ inside

theorem Tidy.restartFrame {frameSize : Nat} {parameters arguments : Array Value}
    {keywords : Table Value} (tidy : machine.Tidy) (few : parameters.size ≤ frameSize) :
    (machine.restartFrame frameSize parameters arguments keywords).Tidy := by
  intro slot high inside
  refine tidy.loadSlots few slot high ?_
  exact size_loadSlots .. ▸ inside

/-- Leaving a frame empties its slots, and those above them that are in use. There may be none in use
above its base, or not even all below. -/
theorem Tidy.popFrame {result : Value} (tidy : machine.Tidy) (allowed : machine.popStop? = none) :
    (machine.popFrame result).Tidy := by
  obtain ⟨frame, caller, callers, top, based, -⟩ := popStop?_eq_none allowed
  rw [popFrame_eq machine result top]
  intro slot high inside
  dsimp only at high inside ⊢
  rw [Array.size_setIfInBounds, size_clearSlots] at inside
  rw [Array.getElem?_setIfInBounds_ne (by omega), getElem?_clearSlots _ _ _ _ inside]
  split
  · rfl
  next beyond => exact tidy slot (by omega) inside

end Changes

/-- The next instruction of the machine, if it writes the slot of a local variable, writes one that is
in use at that moment. -/
def Careful (store : Store) (machine : Machine) : Prop :=
  ∀ instruction slot, Instruction.decode? machine.code machine.ip = some instruction →
    machine.place instruction = some slot → slot < machine.sp - machine.taken store instruction

theorem careful_iff {store : Store} {machine : Machine} : machine.Careful store ↔
    ((Instruction.decode? machine.code machine.ip).all fun instruction =>
      (machine.place instruction).all fun slot =>
        slot < machine.sp - machine.taken store instruction) = true := by
  simp only [Careful, Option.all_eq_true, decide_eq_true_eq]
  exact ⟨fun careful instruction decoded slot => careful instruction slot decoded,
    fun careful instruction slot decoded => careful instruction decoded slot⟩

instance (store : Store) (machine : Machine) : Decidable (machine.Careful store) :=
  decidable_of_iff _ careful_iff.symm

/-- A machine as a run or a native-side call starts it. -/
inductive Fresh : Machine → Prop where
  | run {session : Session} {deadline : Deadline} {machine : Machine}
      (started : session.startMachine deadline = .ok machine) : Fresh machine
  | call (limits : Limits) (caller : Machine) (function : Ref) (arguments keywords : Value) :
      Fresh (Execution.child limits caller function arguments keywords)

theorem Fresh.tidy {machine : Machine} (fresh : machine.Fresh) : machine.Tidy := by
  intro slot high inside
  cases fresh with
  | run started =>
    unfold Session.startMachine at started
    dsimp only at started
    split at started
    · cases started
    · cases started
      exact (Array.getElem?_replicate ..).trans (if_pos (by simpa using inside))
  | call limits =>
    have above : 3 ≤ slot := high
    have size : slot < 3 + (limits.stackSize - 3) := by
      simpa [Execution.child] using inside
    refine (Array.getElem?_append_right (by exact above)).trans ?_
    exact (Array.getElem?_replicate ..).trans (if_pos (by change slot - 3 < _; omega))

end Machine

namespace Act

variable {around : Surroundings} {world : World} {machine : Machine} {next : Next} {active after : Active}

/-- One instruction of a machine, up to where it is done or waits. -/
theorem tidy_perform {instruction : Instruction}
    (decoded : Instruction.decode? machine.code machine.ip = some instruction)
    (tidy : machine.Tidy) (careful : machine.Careful world.store)
    (performed : perform around instruction ⟨world, machine.decoded instruction.op⟩ = .ok next after)
    (goes : next ≠ .halt) : after.machine.Tidy := by
  have whole := Instruction.length_operands (Instruction.decode?_eq_some decoded).2
  have same : (machine.decoded instruction.op).Tidy := tidy
  have low := careful instruction
  obtain ⟨op, operands⟩ := instruction
  by_cases call : op = .call
  · cases call
    cases calls_perform whole performed with
    | waits => exact same
    | enters stands entered begun =>
      cases enters_enter begun with
      | again reuses few restarted => exact restarted ▸ same.restartFrame few
      | anew own function few pushed => exact pushed ▸ same.pushFrame few
  by_cases ret : op = .ret
  · cases ret
    match operands with
    | [operand] =>
      obtain rfl | ⟨result, middle, shifts, allowed, popped, rfl⟩ := perform_ret performed
      · exact absurd rfl goes
      · exact popped ▸ (shifts.tidy same nofun).popFrame allowed
  have settled := settled_perform whole ret call performed
  cases next with
  | proceed => exact settled.tidy tidy fun slot => low slot decoded
  | await task pending => exact settled.1.tidy tidy fun slot => low slot decoded
  | halt => exact absurd rfl goes

/-- What is left of an instruction writes no local variable. -/
theorem tidy_resume {limits : Limits} {pending : Pending} {result : Except Fault Value}
    (tidy : active.machine.Tidy) (resumed : resume limits pending result active = .ok next after)
    (goes : next ≠ .halt) : after.machine.Tidy := by
  have settles {given : Nat} (owes : pending.Owes given) : after.machine.Tidy := by
    have settling : Settling none 0 given (resume limits pending result) :=
      settling_resume owes limits result
    have settled := settling _ _ _ resumed
    cases next with
    | proceed => exact settled.tidy tidy nofun
    | await => exact settled.1.tidy tidy nofun
    | halt => exact absurd rfl goes
  obtain ⟨value, read, rest⟩ := (looks_ofExcept result).bind_eq_ok resumed
  cases pending with
  | push held => exact settles (.push held)
  | walk assignment selectors held => exact settles (.walk assignment selectors held)
  | finish held => exact settles (.finish held)
  | host =>
    cases rest
    exact tidy
  | native start fromStack =>
    obtain ⟨_, middle, finished, rest⟩ := bind_eq_ok rest
    cases rest
    exact (shifts_finishNative finished).1.tidy tidy nofun

end Act

namespace Execution

variable {setting : Setting} {chain : List Suspended}

/-- A step in the life of the machine that has `chain` below it. Its own instructions are careful. What
machines above it do is not restricted. -/
def Lives (setting : Setting) (chain : List Suspended) (before after : Execution) : Prop :=
  chain.length ≤ before.control.waiting.length ∧ step setting before = .next after ∧
    ∀ machine, before.control = .running machine chain → machine.Careful before.world.store

/-- The machine above `chain` is at work, waits in the middle of an instruction or has stopped, and
unless it has stopped it keeps nothing in unused slots. -/
inductive KeepsTidy (setting : Setting) (chain : List Suspended) : Control → Prop where
  | works {machine : Machine} (tidy : machine.Tidy) : KeepsTidy setting chain (.running machine chain)
  | waits {caller : Suspended} {control : Control} (tidy : caller.machine.Tidy)
      (idle : caller.natives = []) (under : Under setting.program.limits caller chain control) :
      KeepsTidy setting chain control
  | stopped {control : Control} (fewer : control.waiting.length < chain.length) :
      KeepsTidy setting chain control

theorem keepsTidy_afterAct {result : EStateM.Result Stop Active Next} {after : Execution}
    (decided : afterAct chain result = .next after)
    (tidy : ∀ next active, result = .ok next active → next ≠ .halt → active.machine.Tidy) :
    KeepsTidy setting chain after.control := by
  obtain ⟨active, rfl, rfl⟩ | ⟨active, task, pending, rfl, rfl⟩ | ⟨_, _, _, _, rfl, fewer⟩ :=
    afterAct_eq_next decided
  · exact .works (tidy _ _ rfl nofun)
  · exact .waits (tidy _ _ rfl nofun) rfl (.native (.refl _))
  · exact .stopped fewer

theorem keepsTidy_step {before after : Execution} (lives : Lives setting chain before after)
    (keeps : KeepsTidy setting chain before.control) : KeepsTidy setting chain after.control := by
  obtain ⟨stands, stepped, careful⟩ := lives
  obtain ⟨world, control⟩ := before
  cases keeps with
  | works tidy =>
    refine keepsTidy_afterAct stepped fun next active done goes => ?_
    obtain ⟨instruction, decoded, performed⟩ := Act.step_eq_perform done
    exact Act.tidy_perform decoded tidy (careful _ rfl) performed goes
  | @waits caller control tidy idle under =>
    obtain ⟨later, result, machine, same, spent, resumes | ended⟩ | ⟨next, following, kept⟩ :=
      under_step idle under
    · cases same
      have kept : machine.Tidy := (Machine.Shifts.ofSpent spent).tidy tidy nofun
      exact keepsTidy_afterAct (resumes.symm.trans stepped) fun next active done goes =>
        Act.tidy_resume kept done goes
    · cases ended.symm.trans stepped
    · cases stepped.symm.trans following
      exact .waits tidy idle kept
  | stopped fewer => exact absurd stands (Nat.not_le_of_lt fewer)

/-- On a machine whose own instructions write local variables below the slots in use only, all other
slots are empty, before each of its instructions and while one of them waits. -/
theorem unused_slots_empty {setting : Setting} {chain : List Suspended} {world : World}
    {start : Machine} {last : Execution} (fresh : start.Fresh)
    (lived : Relation.ReflTransGen (Lives setting chain) ⟨world, .running start chain⟩ last) :
    (∀ machine, last.control = .running machine chain →
      ∀ slot, machine.sp ≤ slot → slot < machine.stack.size →
        machine.stack[slot]? = some .undefined) ∧
    ∀ inner held, last.control.suspended = inner ++ held :: chain →
      ∀ slot, held.machine.sp ≤ slot → slot < held.machine.stack.size →
        held.machine.stack[slot]? = some .undefined := by
  have keeps : KeepsTidy setting chain last.control := by
    induction lived with
    | refl => exact .works fresh.tidy
    | tail _ lives ih => exact keepsTidy_step lives ih
  refine ⟨fun machine same => ?_, fun inner held same => ?_⟩
  · rw [same] at keeps
    cases keeps with
    | works tidy => exact tidy
    | waits _ _ under => exact absurd under.length_lt (Nat.lt_irrefl _)
    | stopped fewer => exact absurd fewer (Nat.lt_irrefl _)
  · have length := congrArg List.length same
    rw [List.length_append, List.length_cons] at length
    obtain ⟨later, control⟩ := last
    cases keeps with
    | works => exact absurd length (by dsimp only [Control.suspended]; omega)
    | waits tidy _ under =>
      obtain ⟨others, waiting, known, awaits⟩ := under.suspended
      obtain ⟨-, top⟩ := List.append_inj' (same.symm.trans known) rfl
      cases top
      exact (Machine.Shifts.ofSpent awaits.machine).tidy tidy nofun
    | stopped fewer =>
      cases control with
      | running => exact absurd fewer (by dsimp only [Control.waiting, Control.suspended] at *; omega)
      | native =>
        dsimp only [Control.waiting, Control.suspended, List.length_cons] at fewer length
        omega

/-- A main function with one local variable, which is set and then captured. -/
def capturing : Session where
  program := { main := 0, limits := { stackSize := 4 } }
  host := .standard
  world := { store := { cells := #[.function { code :=
    { locals := 1
      instructions := #[Opcode.pushTrue.byte, Opcode.defineLocal.byte, 0, Opcode.getLocalBox.byte, 0,
        Opcode.suspend.byte] } }] } }
  machine := .blank { stackSize := 4 } {}

def capturingMachine : Machine := (capturing.startMachine .unlimited).toOption.get (by decide +kernel)

/-- It has put the box of its variable on the stack. -/
def captured : Active where
  world := { capturing.world with store :=
    { capturing.world.store with cells := capturing.world.store.cells.push (.box (.bool true)) } }
  machine := { capturingMachine with
    stack := #[.box 1, .box 1, .undefined, .undefined], sp := 2, ip := 5, opIp := 3, ticks := 3 }

/-- The box stands in the variable's slot and above it. The other two slots are empty. -/
theorem unused_slots_empty_capturing :
    Relation.ReflTransGen (Lives (capturing.setting []) [])
      ⟨capturing.world, .running capturingMachine []⟩ ⟨captured.world, .running captured.machine []⟩ ∧
    captured.machine.sp = 2 ∧ captured.machine.stack[2]? = some .undefined ∧
    captured.machine.stack[3]? = some .undefined := by
  have fresh : capturingMachine.Fresh :=
    @Machine.Fresh.run capturing .unlimited _ rfl
  have lived : Relation.ReflTransGen (Lives (capturing.setting []) [])
      ⟨capturing.world, .running capturingMachine []⟩
      ⟨captured.world, .running captured.machine []⟩ := by
    refine .tail (.tail (.tail .refl ⟨Nat.zero_le _, rfl, ?_⟩) ⟨Nat.zero_le _, rfl, ?_⟩)
      ⟨Nat.zero_le _, rfl, ?_⟩
    all_goals
      rintro _ ⟨⟩
      decide +kernel
  have empty := (unused_slots_empty fresh lived).1 captured.machine rfl
  exact ⟨lived, rfl, empty 2 (by decide) (by decide), empty 3 (by decide) (by decide)⟩

end Execution

end ScriptMachine
