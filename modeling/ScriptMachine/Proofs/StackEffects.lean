import ScriptMachine.Proofs.StackShifts

/-! The stack effect of every instruction, told by its operation, its operands and the values on top
of the stack. Calls that enter functions and returns, which change frames, are not among them. -/

namespace ScriptMachine

def Instruction.operand (instruction : Instruction) (index : Nat) : Nat :=
  instruction.operands.getD index 0

/-- The slots that the arguments of a call take, one for each map or array that adds to them. -/
def Instruction.argumentSlots (instruction : Instruction) : Nat :=
  instruction.operand 0 + (decide (instruction.operand 1 ≠ 0)).toNat +
    (decide (instruction.operand 2 ≠ 0)).toNat + (decide (instruction.operand 3 ≠ 0)).toNat

/-- The function that a call of the value enters in a frame, with a receiver or without. -/
def Value.entered? : Value → Option Ref
  | .function ref | .bound _ _ (.function ref) _ => some ref
  | _ => none

/-- How many values an operation puts on the stack when it is done, returns and calls of functions
apart. -/
def Opcode.given : Opcode → Nat
  | .pop | .jumpFalsy | .andJump | .orJump | .jump | .setGlobal | .setGlobalPath | .defineLocal
  | .setLocal | .setLocalPath | .setFree | .setFreePath | .ret | .suspend => 0
  | _ => 1

namespace Machine

def tipsFalsy (store : Store) (machine : Machine) : Bool :=
  (machine.stack[machine.sp - 1]?.getD .undefined).isFalsy store

def jumps (store : Store) (machine : Machine) : Opcode → Bool
  | .jump => true
  | .jumpFalsy | .andJump => machine.tipsFalsy store
  | .orJump => !machine.tipsFalsy store
  | _ => false

def calleeBelow (machine : Machine) (slots : Nat) : Value :=
  machine.stack[machine.sp - slots - 1]?.getD .undefined

/-- Whether a native callable takes the value below it for its receiver. A bound one has its own. -/
def takesReceiver (store : Store) (machine : Machine) (slots : Nat) : Bool :=
  match machine.calleeBelow slots with
  | .bound .. => false
  | native => native.isMethod store && 2 ≤ machine.sp - slots

/-- How many values an instruction takes off the stack, returns and calls of functions apart. -/
def taken (store : Store) (machine : Machine) (instruction : Instruction) : Nat :=
  match instruction.op with
  | .pop | .setGlobal | .setFree | .defineLocal | .setLocal | .jumpFalsy => 1
  | .andJump | .orJump => if machine.jumps store instruction.op then 0 else 1
  | .setGlobalPath | .setLocalPath | .setFreePath => instruction.operand 1 + 1
  | .array | .map => instruction.operand 0
  | .closure => instruction.operand 1
  | .binary | .equal | .notEqual | .index => 2
  | .slice => 3
  | .logicalNot | .complement | .negate | .error | .freeze | .iterate | .iteratorNext
  | .iteratorKey | .iteratorValue => 1
  | .call => instruction.argumentSlots + 1 +
      (machine.takesReceiver store instruction.argumentSlots).toNat
  | _ => 0

/-- Whether a slot holds the box of a captured variable. -/
def holdsBox (machine : Machine) (slot : Nat) : Bool :=
  match machine.stack[slot]? with
  | some (.box _) => true
  | _ => false

/-- The slot of a local variable that an instruction overwrites, if it does so. A box stays where it
is, unless it has just been taken off the stack. -/
def place (machine : Machine) (instruction : Instruction) : Option Nat :=
  let addressed := (machine.localPlace (instruction.operand 0)).toOption
  match instruction.op with
  | .defineLocal => addressed
  | .setLocal => addressed.filter fun slot => !machine.holdsBox slot || slot + 1 == machine.sp
  | .getLocalBox => addressed.filter fun slot => !machine.holdsBox slot
  | _ => none

/-- Where the code goes on behind an instruction that has been read, or at the target of a jump. -/
def goesOn (store : Store) (machine : Machine) (instruction : Instruction) : Nat :=
  if machine.jumps store instruction.op then instruction.operand 0 else machine.ip

end Machine

namespace Act

variable {around : Surroundings} {world : World} {machine : Machine} {op : Opcode} {next : Next}
  {active after : Active}

section Plain

theorem settling_execute (world : World) (machine : Machine) (bare : op.widths = []) :
    Settling none (machine.taken world.store ⟨op, []⟩) op.given (execute around op) := by
  cases op with
  | pushUndefined | pushDefault | pushTrue | pushFalse => exact settling_thenProceed (effect_push _)
  | pop => exact .before effect_pop fun _ => settling_proceed
  | equal | notEqual =>
    refine @Settling.bind _ _ 1 1 _ _ _ effect_pop fun right => ?_
    refine .before effect_pop fun left => ?_
    exact .after (looks_readStore _).effect fun same => settling_thenProceed (effect_push _)
  | logicalNot =>
    refine .before effect_pop fun value => ?_
    exact .after (looks_readStore _).effect fun falsy => settling_thenProceed (effect_push _)
  | complement | negate =>
    refine .before effect_pop fun value => ?_
    refine .after (looks_readStore _).effect fun outcome => ?_
    exact .after (looks_ofExcept _).effect fun result => settling_thenProceed (effect_pushCharged _ _)
  | error =>
    refine .before effect_pop fun value => ?_
    refine .after (effect_charge _) fun _ => ?_
    exact .after (effect_onStore _) fun error => settling_thenProceed (effect_push _)
  | freeze =>
    refine .before effect_pop fun value => ?_
    split
    · exact settling_thenProceed (effect_pushCharged _ _)
    · exact settling_thenProceed (effect_pushCharged _ _)
    · exact settling_thenProceed (effect_push _)
  | index =>
    refine @Settling.bind _ _ 1 1 _ _ _ effect_pop fun index => ?_
    exact .before effect_pop fun target => settling_pushIndexed target index
  | slice =>
    refine @Settling.bind _ _ 1 2 _ _ _ effect_pop fun high => ?_
    refine @Settling.bind _ _ 1 1 _ _ _ effect_pop fun low => ?_
    refine .before effect_pop fun target => ?_
    exact .after (effect_onStore _) fun part => settling_thenProceed (effect_pushCharged _ _)
  | callee => exact .after looks_frame.effect fun frame => settling_thenProceed (effect_push _)
  | callArguments | callKeywords =>
    refine .after looks_frame.effect fun frame => ?_
    exact .after (effect_onStore _) fun made => settling_thenProceed (effect_push _)
  | iterate =>
    refine .before effect_pop fun value => ?_
    refine .after (looks_readStore _).effect fun store => ?_
    refine .after (looks_ofExcept _).effect fun sequence => ?_
    refine .after (effect_charge _) fun _ => ?_
    exact .after (effect_onStore _) fun cursor => settling_thenProceed (effect_push _)
  | iteratorNext =>
    refine .before effect_popIterator fun cursor => ?_
    exact .after (effect_onStore _) fun more => settling_thenProceed (effect_push _)
  | iteratorKey | iteratorValue =>
    refine .before effect_popIterator fun cursor => ?_
    exact .after (looks_readStore _).effect fun value => settling_thenProceed (effect_push _)
  | suspend =>
    rintro active next after ⟨⟩
    trivial
  | _ => cases bare

theorem tipsFalsy_of_top {value : Value} (looked : top active = .ok value after) (store : Store) :
    active.machine.tipsFalsy store = value.isFalsy store := by
  unfold top at looked
  split at looked
  · cases looked
  next below used =>
    obtain ⟨found, -⟩ := slot_eq_ok looked
    rw [Machine.tipsFalsy, used, Nat.succ_sub_one, found, Option.getD_some]

theorem tipsFalsy_of_pop {value : Value} (popped : pop active = .ok value after) (store : Store) :
    active.machine.tipsFalsy store = value.isFalsy store := by
  obtain ⟨below, used, found, -⟩ := pop_eq_ok popped
  rw [Machine.tipsFalsy, used, Nat.add_sub_cancel, found, Option.getD_some]

theorem localAt_eq_ok {index place : Nat} (chosen : localAt index ⟨world, machine⟩ = .ok place after) :
    machine.localPlace index = .ok place ∧ after = ⟨world, machine⟩ := by
  rw [localAt_eq] at chosen
  cases found : machine.localPlace index with
  | ok slot =>
    rw [found] at chosen
    cases chosen
    exact ⟨rfl, rfl⟩
  | error fault =>
    rw [found] at chosen
    cases chosen

theorem looks_localAt (index : Nat) : Looks (localAt index) :=
  fun _ _ _ chosen => (localAt_eq_ok chosen).2

theorem settled_jumpFalsy {target : Nat}
    (done : performOne around .jumpFalsy target ⟨world, machine⟩ = .ok next after) :
    ({ machine with ip := machine.goesOn world.store ⟨.jumpFalsy, [target]⟩ } : Machine).Settled
      none 1 0 next after.machine := by
  obtain ⟨value, middle, popped, rest⟩ := bind_eq_ok done
  have falsy := tipsFalsy_of_pop popped world.store
  have shifts : machine.Shifts none 1 0 middle.machine := effect_pop _ _ _ popped
  obtain ⟨below, -, -, rfl⟩ := pop_eq_ok popped
  obtain ⟨_, _, read, rest⟩ := bind_eq_ok rest
  cases read
  dsimp only at rest
  split at rest
  next taken =>
    cases rest
    rw [Machine.goesOn, Machine.jumps, falsy, if_pos taken]
    exact shifts.atIp target
  next passed =>
    cases rest
    rw [Machine.goesOn, Machine.jumps, falsy, if_neg passed]
    exact shifts

theorem settled_andJump {target : Nat}
    (done : performOne around .andJump target ⟨world, machine⟩ = .ok next after) :
    ({ machine with ip := machine.goesOn world.store ⟨.andJump, [target]⟩ } : Machine).Settled
      none (machine.taken world.store ⟨.andJump, [target]⟩) 0 next after.machine := by
  obtain ⟨value, _, looked, rest⟩ := bind_eq_ok done
  have falsy := tipsFalsy_of_top looked world.store
  obtain rfl := looks_top _ _ _ looked
  obtain ⟨_, _, read, rest⟩ := bind_eq_ok rest
  cases read
  dsimp only at rest
  split at rest
  next taken =>
    cases rest
    simp only [Machine.goesOn, Machine.taken, Machine.jumps, falsy, if_pos taken]
    exact (Machine.Shifts.refl none machine).atIp target
  next passed =>
    obtain ⟨_, middle, popped, rest⟩ := bind_eq_ok rest
    cases rest
    simp only [Machine.goesOn, Machine.taken, Machine.jumps, falsy, if_neg passed]
    exact effect_pop _ _ _ popped

theorem settled_orJump {target : Nat}
    (done : performOne around .orJump target ⟨world, machine⟩ = .ok next after) :
    ({ machine with ip := machine.goesOn world.store ⟨.orJump, [target]⟩ } : Machine).Settled
      none (machine.taken world.store ⟨.orJump, [target]⟩) 0 next after.machine := by
  obtain ⟨value, _, looked, rest⟩ := bind_eq_ok done
  have falsy := tipsFalsy_of_top looked world.store
  obtain rfl := looks_top _ _ _ looked
  obtain ⟨_, _, read, rest⟩ := bind_eq_ok rest
  cases read
  dsimp only at rest
  split at rest
  next passed =>
    obtain ⟨_, middle, popped, rest⟩ := bind_eq_ok rest
    cases rest
    simp only [Machine.goesOn, Machine.taken, Machine.jumps, falsy, passed]
    exact effect_pop _ _ _ popped
  next taken =>
    cases rest
    simp only [Machine.goesOn, Machine.taken, Machine.jumps, falsy, taken]
    exact (Machine.Shifts.refl none machine).atIp target

theorem settled_defineLocal {index : Nat}
    (done : performOne around .defineLocal index ⟨world, machine⟩ = .ok next after) :
    machine.Settled (machine.place ⟨.defineLocal, [index]⟩) 1 0 next after.machine := by
  obtain ⟨slot, _, chosen, rest⟩ := bind_eq_ok done
  obtain ⟨found, rfl⟩ := localAt_eq_ok chosen
  have place : machine.place ⟨.defineLocal, [index]⟩ = some slot := by
    simp only [Machine.place, Instruction.operand, List.getD_cons_zero, found, Except.toOption]
  rw [place]
  have settling : Settling (some slot) 1 0 (do
      let value ← pop
      thenProceed (setSlot slot value)) :=
    .before effect_pop fun value => settling_thenProceed (effect_setSlot slot value)
  exact settling _ _ _ rest

theorem holdsBox_iff {slot : Nat} :
    machine.holdsBox slot = true ↔ ∃ ref, machine.stack[slot]? = some (.box ref) := by
  unfold Machine.holdsBox
  split
  next ref found => exact ⟨fun _ => ⟨ref, found⟩, fun _ => rfl⟩
  next other =>
    refine ⟨nofun, ?_⟩
    rintro ⟨ref, found⟩
    exact absurd found (other ref)

/-- Taking the value off empties its slot, so where that is the slot of the variable no box is left in
it. -/
theorem settled_setLocal {index : Nat}
    (done : performOne around .setLocal index ⟨world, machine⟩ = .ok next after) :
    machine.Settled (machine.place ⟨.setLocal, [index]⟩) 1 0 next after.machine := by
  obtain ⟨slot, _, chosen, rest⟩ := bind_eq_ok done
  obtain ⟨found, rfl⟩ := localAt_eq_ok chosen
  obtain ⟨value, middle, popped, rest⟩ := bind_eq_ok rest
  have shifts : machine.Shifts none 1 0 middle.machine := effect_pop _ _ _ popped
  obtain ⟨below, used, -, rfl⟩ := pop_eq_ok popped
  have top : slot + 1 = machine.sp ↔ below = slot := by
    rw [show machine.sp = below + 1 from used]
    omega
  obtain ⟨old, _, read, rest⟩ := bind_eq_ok rest
  obtain ⟨held, rfl⟩ := slot_eq_ok read
  have emptied : below = slot → old = .undefined := by
    rintro rfl
    rw [Array.getElem?_setIfInBounds_self] at held
    split at held
    · cases held
      rfl
    · cases held
  have kept (apart : below ≠ slot) : machine.stack[slot]? = some old := by
    rwa [Array.getElem?_setIfInBounds_ne apart] at held
  have place : machine.place ⟨.setLocal, [index]⟩ =
      (some slot).filter fun slot => !machine.holdsBox slot || slot + 1 == machine.sp := by
    simp only [Machine.place, Instruction.operand, List.getD_cons_zero, found, Except.toOption]
  split at rest
  next ref =>
    have apart : below ≠ slot := fun same => nomatch emptied same
    have boxed := holdsBox_iff.mpr ⟨ref, kept apart⟩
    have stays : machine.place ⟨.setLocal, [index]⟩ = none := by
      rw [place, Option.filter_some, boxed]
      simp only [Bool.not_true, Bool.false_or, beq_iff_eq, top]
      exact if_neg apart
    rw [stays]
    exact shifts.settled (settling_thenProceed (effect_onStore _) _ _ _ rest)
  next plain =>
    have written : machine.place ⟨.setLocal, [index]⟩ = some slot := by
      rw [place, Option.filter_some]
      refine if_pos ?_
      by_cases same : below = slot
      · simp only [beq_iff_eq.mpr (top.mpr same), Bool.or_true]
      · have free : machine.holdsBox slot = false := by
          rw [Bool.eq_false_iff, ne_eq, holdsBox_iff]
          rintro ⟨ref, boxed⟩
          rw [kept same] at boxed
          exact plain ref (Option.some.inj boxed)
        simp only [free, Bool.not_false, Bool.true_or]
    rw [written]
    exact (shifts.atPlace _).settled (settling_thenProceed (effect_setSlot slot value) _ _ _ rest)

theorem settled_getLocalBox {index : Nat}
    (done : performOne around .getLocalBox index ⟨world, machine⟩ = .ok next after) :
    machine.Settled (machine.place ⟨.getLocalBox, [index]⟩) 0 1 next after.machine := by
  obtain ⟨slot, _, chosen, rest⟩ := bind_eq_ok done
  obtain ⟨found, rfl⟩ := localAt_eq_ok chosen
  obtain ⟨old, _, read, rest⟩ := bind_eq_ok rest
  obtain ⟨held, rfl⟩ := slot_eq_ok read
  have place : machine.place ⟨.getLocalBox, [index]⟩ =
      (some slot).filter fun slot => !machine.holdsBox slot := by
    simp only [Machine.place, Instruction.operand, List.getD_cons_zero, found, Except.toOption]
  split at rest
  next ref =>
    have boxed := holdsBox_iff.mpr ⟨ref, held⟩
    rw [place, Option.filter_some, boxed]
    exact settling_thenProceed (effect_push _) _ _ _ rest
  next plain =>
    have free : machine.holdsBox slot = false := by
      rw [Bool.eq_false_iff, ne_eq, holdsBox_iff]
      rintro ⟨ref, boxed⟩
      rw [held] at boxed
      exact plain ref (Option.some.inj boxed)
    rw [place, Option.filter_some, free]
    have settling : Settling (some slot) 0 1 (do
        let ref ← onStore (StoreM.newBox old)
        setSlot slot (.box ref)
        thenProceed (push (.box ref))) :=
      .after (effect_onStore _) fun ref =>
        .after (effect_setSlot slot _) fun _ => settling_thenProceed (effect_push _)
    exact settling _ _ _ rest

theorem settled_performOne {operand : Nat} (single : op.widths.length = 1) (stays : op ≠ .ret)
    (done : performOne around op operand ⟨world, machine⟩ = .ok next after) :
    ({ machine with ip := machine.goesOn world.store ⟨op, [operand]⟩ } : Machine).Settled
      (machine.place ⟨op, [operand]⟩) (machine.taken world.store ⟨op, [operand]⟩) op.given next
      after.machine := by
  have settles {taken given : Nat} {act : Act Next} (settling : Settling none taken given act)
      (ended : act ⟨world, machine⟩ = .ok next after) :
      machine.Settled none taken given next after.machine := settling _ _ _ ended
  cases op with
  | jumpFalsy => exact settled_jumpFalsy done
  | andJump => exact settled_andJump done
  | orJump => exact settled_orJump done
  | jump =>
    cases done
    exact (Machine.Shifts.refl none machine).atIp operand
  | defineLocal => exact settled_defineLocal done
  | setLocal => exact settled_setLocal done
  | getLocalBox => exact settled_getLocalBox done
  | constant | getBuiltin =>
    refine settles ?_ done
    unfold performOne
    dsimp only
    split
    · exact settling_thenProceed (effect_push _)
    · exact settling_failHere
  | binary =>
    refine settles ?_ done
    unfold performOne
    dsimp only
    split
    · exact settling_failHere
    · refine @Settling.bind _ _ 1 1 _ _ _ effect_pop fun right => ?_
      refine .before effect_pop fun left => ?_
      exact .after (effect_onStore _) fun result => settling_thenProceed (effect_pushCharged _ _)
  | getGlobal =>
    exact settles (.after (looks_global _).effect fun _ => settling_thenProceed (effect_push _)) done
  | setGlobal =>
    exact settles (.before effect_pop fun _ => settling_thenProceed (effect_setGlobal _ _)) done
  | getLocal =>
    refine settles ?_ done
    refine .after (looks_localAt operand).effect fun slot => ?_
    refine .after (looks_slot slot).effect fun held => ?_
    exact .after (looks_unboxed held).effect fun value => settling_thenProceed (effect_push value)
  | getFree =>
    refine settles ?_ done
    refine .after (looks_freeBox operand).effect fun box => ?_
    exact .after (looks_readStore _).effect fun value => settling_thenProceed (effect_push value)
  | setFree =>
    refine settles ?_ done
    refine .before effect_pop fun value => ?_
    exact .after (looks_freeBox operand).effect fun box => settling_thenProceed (effect_onStore _)
  | getFreeBox =>
    exact settles (.after (looks_freeBox _).effect fun _ => settling_thenProceed (effect_push _)) done
  | array =>
    refine settles ?_ done
    refine .before (effect_popMany operand) fun elements => ?_
    refine .after (effect_charge _) fun _ => ?_
    exact .after (effect_onStore _) fun made => settling_thenProceed (effect_push _)
  | map =>
    refine settles ?_ done
    refine .before (effect_popMany operand) fun elements => ?_
    refine .after (looks_readStore _).effect fun store => ?_
    refine .after (looks_ofExcept _).effect fun entries => ?_
    refine .after (effect_charge _) fun _ => ?_
    exact .after (effect_onStore _) fun made => settling_thenProceed (effect_push _)
  | ret => exact absurd rfl stays
  | _ => cases single

theorem settling_performTwo {first second : Nat} (double : op.widths.length = 2) :
    Settling none (machine.taken world.store ⟨op, [first, second]⟩) op.given
      (performTwo around op first second) := by
  cases op with
  | setGlobalPath => exact .after (looks_global _).effect fun _ => settling_assignPath _ _
  | setLocalPath =>
    refine .after (looks_localAt first).effect fun slot => ?_
    refine .after (looks_slot slot).effect fun held => ?_
    exact .after (looks_unboxed held).effect fun target => settling_assignPath target second
  | setFreePath =>
    refine .after (looks_freeBox first).effect fun box => ?_
    exact .after (looks_readStore _).effect fun target => settling_assignPath target second
  | closure => exact settling_thenProceed (effect_closureOf _ _ _)
  | _ => cases double

/-- Only instructions with one operand jump or overwrite a slot. -/
theorem steady (instruction : Instruction) (other : instruction.op.widths.length ≠ 1) (store : Store)
    (machine : Machine) :
    machine.place instruction = none ∧ machine.goesOn store instruction = machine.ip := by
  obtain ⟨op, operands⟩ := instruction
  cases op with
  | jump | jumpFalsy | andJump | orJump | defineLocal | setLocal | getLocalBox =>
    exact absurd rfl other
  | _ => exact ⟨rfl, rfl⟩

theorem settled_perform {operands : List Nat} (whole : operands.length = op.widths.length)
    (stays : op ≠ .ret) (plain : op ≠ .call)
    (done : perform around ⟨op, operands⟩ ⟨world, machine⟩ = .ok next after) :
    ({ machine with ip := machine.goesOn world.store ⟨op, operands⟩ } : Machine).Settled
      (machine.place ⟨op, operands⟩) (machine.taken world.store ⟨op, operands⟩) op.given next
      after.machine := by
  match operands with
  | [] =>
    have bare : op.widths = [] := List.eq_nil_of_length_eq_zero whole.symm
    obtain ⟨place, goesOn⟩ := steady ⟨op, []⟩ (by rw [bare]; decide) world.store machine
    rw [place, goesOn]
    exact settling_execute world machine bare _ _ _ done
  | [operand] => exact settled_performOne whole.symm stays done
  | [first, second] =>
    obtain ⟨place, goesOn⟩ :=
      steady ⟨op, [first, second]⟩ (by rw [← whole]; exact nofun) world.store machine
    rw [place, goesOn]
    exact settling_performTwo whole.symm _ _ _ done
  | _ :: _ :: _ :: rest =>
    have many : 2 < op.widths.length := by
      rw [← whole]
      exact Nat.le_add_left 3 _
    cases op with
    | call => exact absurd rfl plain
    | _ => exact absurd many (by decide)

end Plain

section Calls

/-- A call that stands on top of the stack, with so many slots for its arguments. -/
structure CallSite.Stands (machine : Machine) (slots : Nat) (site : CallSite) : Prop where
  enough : slots + 1 ≤ machine.sp
  start : site.start = machine.sp - slots
  callee : site.callee = machine.calleeBelow slots

/-- What a call comes down to, told by the value below its arguments. -/
inductive CallTarget.Fits (store : Store) (machine : Machine) (slots : Nat) : CallTarget → Prop where
  | function {ref : Ref} {arguments : Array Value}
      (entered : (machine.calleeBelow slots).entered? = some ref) :
      Fits store machine slots (.function ref arguments)
  | native {callee : Value} {context : CallContext} {fromStack : Bool}
      (foreign : (machine.calleeBelow slots).entered? = none)
      (receiver : fromStack = machine.takesReceiver store slots) :
      Fits store machine slots (.native callee context fromStack)

variable {site : CallSite} {limits : Limits}

theorem argumentStart_eq_ok {arity start : Nat} (found : argumentStart arity active = .ok start after) :
    arity + 1 ≤ active.machine.sp ∧ start = active.machine.sp - arity ∧ after = active := by
  obtain ⟨sp, read, rest⟩ := (looks_readMachine _).bind_eq_ok found
  cases read
  split at rest
  · cases rest
  next enough =>
    cases rest
    exact ⟨Nat.le_of_not_lt enough, rfl, rfl⟩

/-- What is read of a call stands on top of the stack, which stays as it is. -/
theorem callWith_eq_ok {count : Nat} {spreads keyed catches : Bool}
    (called : callWith count spreads keyed catches active = .ok site after) :
    after = active ∧
      site.Stands active.machine (count + spreads.toNat + keyed.toNat + catches.toNat) := by
  obtain ⟨start, _, found, rest⟩ := bind_eq_ok called
  obtain ⟨enough, rfl, rfl⟩ := argumentStart_eq_ok found
  obtain ⟨callee, read, rest⟩ := (looks_slot _).bind_eq_ok rest
  obtain ⟨-, -, rest⟩ := (looks_requireCallable callee).bind_eq_ok rest
  obtain ⟨positional, -, rest⟩ := (looks_slots _ _).bind_eq_ok rest
  obtain ⟨more, -, rest⟩ := (looks_spreadArguments _ _).bind_eq_ok rest
  obtain ⟨sp, -, rest⟩ := (looks_readMachine _).bind_eq_ok rest
  obtain ⟨maps, -, rest⟩ := (looks_slots _ _).bind_eq_ok rest
  obtain ⟨keywords, -, rest⟩ := (looks_gatherKeywords _ _).bind_eq_ok rest
  cases rest
  refine ⟨rfl, enough, rfl, ?_⟩
  obtain ⟨held, -⟩ := slot_eq_ok read
  rw [Machine.calleeBelow, held, Option.getD_some]

theorem resolve_eq_ok {slots : Nat} {target : CallTarget} (stands : site.Stands machine slots)
    (resolved : resolve around site ⟨world, machine⟩ = .ok target after) :
    after = ⟨world, machine⟩ ∧ target.Fits world.store machine slots := by
  obtain ⟨start, callee, arguments, keywords⟩ := site
  obtain ⟨-, rfl, same⟩ := stands
  dsimp only at same
  cases callee with
  | function ref =>
    cases resolved
    exact ⟨rfl, .function (by rw [← same]; rfl)⟩
  | bound id hold inner value =>
    cases inner with
    | function ref =>
      obtain ⟨held, -, rest⟩ := (looks_receiver _ _ _).bind_eq_ok resolved
      cases rest
      exact ⟨rfl, .function (by rw [← same]; rfl)⟩
    | _ =>
      obtain ⟨held, -, rest⟩ := (looks_receiver _ _ _).bind_eq_ok resolved
      cases rest
      exact ⟨rfl, .native (by rw [← same]; rfl) (by rw [Machine.takesReceiver, ← same])⟩
  | _ =>
    obtain ⟨store, read, rest⟩ := (looks_readStore id).bind_eq_ok resolved
    cases read
    split at rest
    next takes =>
      obtain ⟨value, -, rest⟩ := (looks_slot _).bind_eq_ok rest
      cases rest
      refine ⟨rfl, .native (by rw [← same]; rfl) ?_⟩
      rw [Machine.takesReceiver, ← same]
      exact takes.symm
    next leaves =>
      cases rest
      refine ⟨rfl, .native (by rw [← same]; rfl) ?_⟩
      rw [Machine.takesReceiver, ← same]
      exact (Bool.eq_false_iff.mpr leaves).symm

/-- A call enters a function or waits for native code, as its callee demands. -/
inductive Calls (around : Surroundings) (world : World) (machine : Machine) (slots : Nat) :
    Next → Active → Prop where
  | enters {site : CallSite} {ref : Ref} {arguments : Array Value} {after : Active}
      (stands : site.Stands machine slots)
      (entered : (machine.calleeBelow slots).entered? = some ref)
      (begun : enter around.program.limits ref arguments site.keywords site.start ⟨world, machine⟩ =
        .ok () after) : Calls around world machine slots .proceed after
  | waits {callee : Value} {context : CallContext} (enough : slots + 1 ≤ machine.sp)
      (foreign : (machine.calleeBelow slots).entered? = none) :
      Calls around world machine slots
        (.await (.invoke callee context)
          (.native (machine.sp - slots) (machine.takesReceiver world.store slots))) ⟨world, machine⟩

theorem calls_perform {operands : List Nat} (whole : operands.length = 4)
    (called : perform around ⟨.call, operands⟩ ⟨world, machine⟩ = .ok next after) :
    Calls around world machine (Instruction.argumentSlots ⟨.call, operands⟩) next after := by
  match operands with
  | [count, spreads, keyed, catches] =>
    obtain ⟨site, _, read, rest⟩ := bind_eq_ok called
    obtain ⟨rfl, stands⟩ := callWith_eq_ok read
    obtain ⟨target, _, resolved, rest⟩ := bind_eq_ok rest
    obtain ⟨rfl, fits⟩ := resolve_eq_ok stands resolved
    cases fits with
    | function entered =>
      obtain ⟨_, middle, begun, rest⟩ := bind_eq_ok rest
      cases rest
      exact .enters stands entered begun
    | native foreign receiver =>
      cases rest
      rw [receiver, stands.start]
      exact .waits stands.enough foreign

theorem getElem?_push {value : Value} (pushed : push value active = .ok () after) :
    after.machine.stack[active.machine.sp]? = some value := by
  unfold push at pushed
  dsimp only at pushed
  split at pushed
  next room =>
    cases pushed
    exact Array.getElem?_setIfInBounds_self_of_lt room
  · cases pushed

theorem getElem?_setTop {value : Value} (written : setTop value active = .ok () after) :
    after.machine.stack[active.machine.sp - 1]? = some value := by
  unfold setTop at written
  split at written
  · cases written
  next below used =>
    unfold setSlot at written
    dsimp only at written
    split at written
    next inside =>
      cases written
      rw [used]
      exact Array.getElem?_setIfInBounds_self_of_lt inside
    · cases written

/-- The result of a native call takes the place of the callee, or that of the receiver below it. -/
theorem shifts_finishNative {start : Nat} {fromStack : Bool} {value : Value}
    (finished : finishNative limits start fromStack value active = .ok () after) :
    active.machine.Shifts none (active.machine.sp - (start - 1) + fromStack.toNat) 1 after.machine ∧
      after.machine.stack[start - 1 - fromStack.toNat]? = some value := by
  obtain ⟨_, _, required, rest⟩ := bind_eq_ok finished
  unfold require at required
  split at required
  · cases required
    obtain ⟨_, dropped, drops, rest⟩ := bind_eq_ok rest
    obtain ⟨_, charged, charges, rest⟩ := bind_eq_ok rest
    obtain ⟨used, empties⟩ := @shifts_dropTo none _ _ _ drops
    have first := empties.trans (effect_charge _ _ _ _ charges)
    have sp : charged.machine.sp = start - 1 := first.sp.trans (Nat.sub_sub_self used)
    cases fromStack with
    | true =>
      have place := getElem?_setTop rest
      rw [sp] at place
      exact ⟨first.trans (effect_setTop _ _ _ _ rest), place⟩
    | false =>
      have place := getElem?_push rest
      rw [sp] at place
      exact ⟨first.trans (effect_push _ _ _ _ rest), place⟩
  · cases required

end Calls

end Act

theorem Instruction.length_operands {code : Array UInt8} {offset : Nat} {widths operands : List Nat}
    (read : readOperands? code offset widths = some operands) : operands.length = widths.length := by
  induction widths generalizing offset operands with
  | nil => rw [Act.readOperands?_nil read]
  | cons width widths ih =>
    obtain ⟨operand, rest, rfl, -, others⟩ := Act.readOperands?_cons read
    rw [List.length_cons, List.length_cons, ih others]

theorem Instruction.decode?_eq_some {code : Array UInt8} {offset : Nat} {instruction : Instruction}
    (decoded : decode? code offset = some instruction) :
    code[offset]? = some instruction.op.byte ∧
      readOperands? code (offset + 1) instruction.op.widths = some instruction.operands := by
  simp only [decode?, Option.bind_eq_bind, Option.bind_eq_some_iff, Option.pure_def,
    Option.some.injEq] at decoded
  obtain ⟨byte, found, op, known, operands, read, rfl⟩ := decoded
  exact ⟨by rw [found, Opcode.byte_of_ofByte? known], read⟩

namespace Execution

variable {setting : Setting} {chain : List Suspended}

/-- Whatever has been settled so far, what is left of an instruction adds up to its whole effect. -/
theorem Settles.shifts {result : EStateM.Result Stop Active Next} {after : Active}
    {place : Option Nat} {taken given : Nat} {before : Machine}
    (settles : Settles setting chain result after)
    (settled : ∀ next active, result = .ok next active →
      before.Settled place taken given next active.machine) :
    before.Shifts place taken given after.machine := by
  induction settles with
  | proceeds => exact settled _ _ rfl
  | @answered active after task pending world result machine during spent rest ih =>
    obtain ⟨shifts, owes⟩ := settled _ _ rfl
    refine ih fun next later resumed => ?_
    have whole := shifts.trans ((Machine.Shifts.ofSpent spent).atPlace place)
    exact whole.settled (Act.settling_resume owes _ _ _ _ _ resumed)

/-- The instruction ends with an answer from the native code that it waits for. -/
def EndsWith (setting : Setting) (chain : List Suspended) (before after : Active) (value : Value) :
    Prop :=
  ∃ middle world caller, step setting ⟨before.world, .running before.machine chain⟩ = .next middle ∧
    Above setting chain middle ⟨world, .native (.answer (.ok value)) caller chain⟩ ∧
    caller.natives = [] ∧
    step setting ⟨world, .native (.answer (.ok value)) caller chain⟩ =
      .next ⟨after.world, .running after.machine chain⟩

/-- A call of native code that is completed has had a value for an answer. -/
theorem Settles.native {active after : Active} {task : Task} {start : Nat} {fromStack : Bool}
    (settles : Settles setting chain (.ok (.await task (.native start fromStack)) active) after) :
    ∃ world machine value,
      Above setting chain
        ⟨active.world, .native task { machine := active.machine, pending := .native start fromStack } chain⟩
        ⟨world, .native (.answer (.ok value)) { machine, pending := .native start fromStack } chain⟩ ∧
      active.machine.Spent machine ∧
      Act.finishNative setting.program.limits start fromStack value ⟨world, machine⟩ = .ok () after := by
  cases settles with
  | @answered _ _ _ _ world result machine during spent rest =>
    cases result with
    | error fault => cases rest
    | ok value =>
      refine ⟨world, machine, value, during, spent, ?_⟩
      change Settles setting chain (Act.thenProceed
        (Act.finishNative setting.program.limits start fromStack value) ⟨world, machine⟩) after at rest
      cases finished : Act.finishNative setting.program.limits start fromStack value
          ⟨world, machine⟩ with
      | error stop last =>
        rw [Act.thenProceed, bind_of_error finished] at rest
        cases rest
      | ok done last =>
        rw [Act.thenProceed, bind_of_ok finished] at rest
        cases rest
        rfl

variable {world : World} {machine : Machine} {after : Active} {instruction : Instruction}

theorem Completes.shifts_plain (completes : Completes setting chain ⟨world, machine⟩ after)
    (decoded : Instruction.decode? machine.code machine.ip = some instruction)
    (stays : instruction.op ≠ .ret) (plain : instruction.op ≠ .call) :
    ({ machine.decoded instruction.op with
      ip := (machine.decoded instruction.op).goesOn world.store instruction } : Machine).Shifts
        (machine.place instruction) (machine.taken world.store instruction) instruction.op.given
        after.machine := by
  obtain ⟨_, next, active, found, -, performed, settles⟩ := completes.performs
  cases decoded.symm.trans found
  have whole := Instruction.length_operands (Instruction.decode?_eq_some decoded).2
  refine settles.shifts ?_
  rintro _ _ ⟨⟩
  exact Act.settled_perform whole stays plain performed

/-- A call of native code. Its result takes the lowest place of those that the call has taken. -/
theorem Completes.shifts_native (completes : Completes setting chain ⟨world, machine⟩ after)
    (decoded : Instruction.decode? machine.code machine.ip = some instruction)
    (calls : instruction.op = .call)
    (foreign : (machine.calleeBelow instruction.argumentSlots).entered? = none) :
    (machine.decoded instruction.op).Shifts none (machine.taken world.store instruction) 1
        after.machine ∧
      ∃ value, EndsWith setting chain ⟨world, machine⟩ after value ∧
        after.machine.stack[machine.sp - machine.taken world.store instruction]? = some value := by
  obtain ⟨_, next, active, found, stepped, performed, settles⟩ := completes.performs
  cases decoded.symm.trans found
  have whole := Instruction.length_operands (Instruction.decode?_eq_some decoded).2
  obtain ⟨op, operands⟩ := instruction
  cases calls
  cases Act.calls_perform whole performed with
  | enters stands entered begun =>
    cases foreign.symm.trans entered
  | waits enough _ =>
    obtain ⟨later, spent, value, during, lost, finished⟩ := settles.native
    have sp : spent.sp = machine.sp := by
      rw [lost.same]
      rfl
    obtain ⟨shifts, place⟩ := Act.shifts_finishNative finished
    have fits : Instruction.argumentSlots ⟨.call, operands⟩ + 1 ≤ machine.sp := enough
    have taken : 0 + (spent.sp - (machine.sp - Instruction.argumentSlots ⟨.call, operands⟩ - 1) +
        (machine.takesReceiver world.store (Instruction.argumentSlots ⟨.call, operands⟩)).toNat) =
        machine.taken world.store ⟨.call, operands⟩ := by
      rw [sp, Nat.sub_sub, Nat.sub_sub_self fits, Nat.zero_add]
      rfl
    have lowest : machine.sp - Instruction.argumentSlots ⟨.call, operands⟩ - 1 -
        (machine.takesReceiver world.store (Instruction.argumentSlots ⟨.call, operands⟩)).toNat =
        machine.sp - machine.taken world.store ⟨.call, operands⟩ := by
      rw [Nat.sub_sub, Nat.sub_sub, ← Nat.add_assoc]
      rfl
    refine ⟨taken ▸ (Machine.Shifts.ofSpent lost).trans shifts, value, ?_, lowest ▸ place⟩
    refine ⟨_, later, _, ?_, during, rfl, ?_⟩
    · simp only [step, stepped]
      rfl
    · have resumed : Act.resume setting.program.limits
          (.native (machine.sp - Instruction.argumentSlots ⟨.call, operands⟩)
            (machine.takesReceiver world.store (Instruction.argumentSlots ⟨.call, operands⟩)))
          (.ok value) ⟨later, spent⟩ = .ok .proceed after := bind_of_ok finished
      exact congrArg (afterAct chain) resumed

/-- Every instruction takes as many values off the stack and puts as many on it as its operation, its
operands and, for a jump or a call, the values on top say. It leaves the slots below alone, but for the
one of a local variable that it overwrites, and the result of native code stands where the call stood.
All this holds whatever runs on other machines before the instruction is completed. -/
theorem fixed_stack_effect {setting : Setting} {chain : List Suspended} {world : World}
    {machine : Machine} {after : Active} {instruction : Instruction}
    (decoded : Instruction.decode? machine.code machine.ip = some instruction)
    (completes : Completes setting chain ⟨world, machine⟩ after) (stays : instruction.op ≠ .ret)
    (foreign : instruction.op = .call →
      (machine.calleeBelow instruction.argumentSlots).entered? = none) :
    machine.taken world.store instruction ≤ machine.sp ∧
    after.machine.sp =
      machine.sp - machine.taken world.store instruction + instruction.op.given ∧
    after.machine.stack.size = machine.stack.size ∧
    (∀ slot, slot < machine.sp - machine.taken world.store instruction →
      machine.place instruction ≠ some slot → after.machine.stack[slot]? = machine.stack[slot]?) ∧
    (instruction.op = .call → ∃ value, EndsWith setting chain ⟨world, machine⟩ after value ∧
      after.machine.stack[machine.sp - machine.taken world.store instruction]? = some value) := by
  by_cases calls : instruction.op = .call
  · obtain ⟨shifts, answered⟩ := completes.shifts_native decoded calls (foreign calls)
    have one : instruction.op.given = 1 := by
      rw [calls]
      rfl
    rw [one]
    exact ⟨shifts.enough, shifts.sp, shifts.size, fun slot low _ => shifts.below slot low nofun,
      fun _ => answered⟩
  · have shifts := completes.shifts_plain decoded stays calls
    exact ⟨shifts.enough, shifts.sp, shifts.size, shifts.below, fun call => absurd call calls⟩

/-- The standard host, whose method `apply` calls its first argument. -/
def callingBackSetting : Setting where
  program := { main := 1, limits := { stackSize := 6 } }
  host := .standard

/-- The method stands above its receiver and below its argument, a function. -/
def callingBack : Active where
  world := { store := { cells := #[
    .function { code := { instructions := #[Opcode.pushTrue.byte, Opcode.ret.byte, 1] } },
    .function { code := { instructions := #[Opcode.call.byte, 1, 0, 0, 0] } }] } }
  machine :=
    { stack := #[.int 1, .int 5, .host 0 ⟨"apply", "apply", true⟩, .function 0, .undefined, .undefined]
      sp := 4
      calls := CallStack.empty.push
        { function := some 1, code := { instructions := #[Opcode.call.byte, 1, 0, 0, 0] } }
      code := #[Opcode.call.byte, 1, 0, 0, 0]
      budget := 0 }

/-- The host's method has run a function on another machine when its result takes the place of the
receiver. -/
theorem fixed_stack_effect_callingBack :
    ∃ after value, Completes callingBackSetting [] callingBack after ∧ after.machine.sp = 2 ∧
      after.machine.stack[0]? = some (.int 1) ∧
      EndsWith callingBackSetting [] callingBack after value ∧
      after.machine.stack[1]? = some value := by
  have ends : (complete? callingBackSetting 20 callingBack).isSome = true := by decide +kernel
  obtain ⟨after, found⟩ := Option.isSome_iff_exists.mp ends
  have completes := completes_of_complete? found
  obtain ⟨-, sp, -, below, answered⟩ := @fixed_stack_effect callingBackSetting [] callingBack.world
    callingBack.machine after ⟨.call, [1, 0, 0, 0]⟩ (by decide) completes (by decide) (fun _ => rfl)
  obtain ⟨value, ended, place⟩ := answered rfl
  exact ⟨after, value, completes, sp, below 0 (by decide) nofun, ended, place⟩

end Execution

end ScriptMachine
