import ScriptMachine.Host
import ScriptMachine.Instruction

/-! The machine: a stack of fixed size, frames on it, and what remains of the limits. Programs,
globals and the store are shared by all machines of a run. -/

namespace ScriptMachine

/-- A program with what it may use. -/
structure Program where
  main : Ref
  constants : Array Value := #[]
  builtins : Array Value := #[]
  sources : SourceSet := {}
  limits : Limits := {}

def Program.values (program : Program) : List Value :=
  .function program.main :: program.constants.toList

/-- What the machines of a run share. -/
structure World where
  store : Store := {}
  globals : Array Value := #[]
  /-- Somebody has asked the run to stop. -/
  aborting : Bool := false

namespace World

def refs (world : World) : List Ref := Value.refsOf world.globals

/-- Carries out a computation on the store. The world is taken apart first, so that nothing else refers to
a store whose cells change in place. -/
@[inline] def compute {α : Type} (world : World) (action : StoreM α) : Except Fault α × World :=
  match world with
  | ⟨store, globals, aborting⟩ =>
    match action store with
    | .ok result store => (.ok result, ⟨store, globals, aborting⟩)
    | .error fault store => (.error fault, ⟨store, globals, aborting⟩)

end World

/-- Why a run may not go on. -/
inductive Expiry where
  | cancelled
  | expired
  deriving DecidableEq

def Expiry.fault : Expiry → Fault
  | cancelled => .aborted
  | expired => .deadlineExceeded

/-- A moment at which a machine looks at the deadline of its run: how many cells there are, how many machines
are around it, and how many instructions it has begun. A run looks at no moment twice. -/
structure Moment where
  cells : Nat
  nesting : Nat
  ticks : Nat

/-- What the looks of a run find. Others cancel a run and time runs out while it is under way, so each look
may find what it will. -/
structure Deadline where
  finds : Moment → Option Expiry

namespace Deadline

def unlimited : Deadline := ⟨fun _ => none⟩

def cancelled : Deadline := ⟨fun _ => some .cancelled⟩

def expired : Deadline := ⟨fun _ => some .expired⟩

end Deadline

/-- How many instructions are executed between two looks at the deadline. -/
def deadlineInterval : Nat := 1024

/-- A call in progress. Its locals begin at `base` on the stack, right above the callee. -/
structure Frame where
  /-- The function that runs; none for the code that starts a native-side call. -/
  function : Option Ref
  code : FunctionCode
  free : Array Ref := #[]
  /-- The positional arguments as received. -/
  arguments : Array Value := #[]
  keywords : Table Value := {}
  /-- Where the code goes on once the frame above is left. -/
  resume : Nat := 0
  base : Nat := 0

def Frame.values (frame : Frame) : List Value :=
  (frame.function.map .function).toList ++ frame.arguments.toList ++ frame.keywords.values

/-- The frames of a machine, the running one first, with their number. -/
structure CallStack where
  frames : List Frame
  depth : Nat
  depth_eq : depth = frames.length

namespace CallStack

def empty : CallStack := ⟨[], 0, rfl⟩

def push (calls : CallStack) (frame : Frame) : CallStack :=
  ⟨frame :: calls.frames, calls.depth + 1, by simp [calls.depth_eq]⟩

def changeTop (calls : CallStack) (change : Frame → Frame) : CallStack :=
  match calls with
  | ⟨[], depth, depth_eq⟩ => ⟨[], depth, depth_eq⟩
  | ⟨frame :: callers, depth, depth_eq⟩ => ⟨change frame :: callers, depth, depth_eq⟩

def pop (calls : CallStack) : CallStack :=
  ⟨calls.frames.tail, calls.depth - 1, by simp [calls.depth_eq]⟩

def values (calls : CallStack) : List Value := calls.frames.flatMap Frame.values

end CallStack

structure Machine where
  stack : Array Value
  /-- The slots below are in use. -/
  sp : Nat := 0
  calls : CallStack := .empty
  /-- The frames of the machines around this one. -/
  outerFrames : Nat := 0
  /-- How many machines are around this one. -/
  nesting : Nat := 0
  /-- The code of the running frame. -/
  code : Array UInt8 := #[]
  /-- The offset of the next byte of code. -/
  ip : Nat := 0
  /-- The offset of the instruction being executed. -/
  opIp : Nat := 0
  ticks : Nat := 0
  /-- Allocations left, counted only under a limit. -/
  budget : Int
  deadline : Deadline := .unlimited
  /-- The function whose native-side call this machine runs; none for the outermost machine. -/
  serves : Option Ref := none

namespace Machine

def frames (machine : Machine) : List Frame := machine.calls.frames

/-- How many frames this machine and those around it have. -/
def frameDepth (machine : Machine) : Nat := machine.outerFrames + machine.calls.depth

/-- The references that a machine holds, in slots in use or not, and by its calls. -/
def refs (machine : Machine) : List Ref :=
  Value.refsOf machine.stack ++ machine.calls.values.flatMap Value.refs

/-- The references that the running frame was given or has in its slots. -/
def nearRefs (machine : Machine) : List Ref :=
  match machine.frames with
  | [] => []
  | frame :: _ =>
    Value.refsOf (machine.stack.extract frame.base machine.sp) ++ frame.values.flatMap Value.refs

def moment (store : Store) (machine : Machine) : Moment := ⟨store.cells.size, machine.nesting, machine.ticks⟩

/-- Why the run has to stop. The deadline is looked at once in every interval. -/
def expiry? (store : Store) (machine : Machine) : Option Fault :=
  if machine.ticks % deadlineInterval = 0 then (machine.deadline.finds (machine.moment store)).map Expiry.fault
  else none

def fillSlots (stack : Array Value) (index : Nat) : List Value → Array Value
  | [] => stack
  | value :: rest => fillSlots (stack.setIfInBounds index value) (index + 1) rest

def clearSlots (stack : Array Value) (index : Nat) : Nat → Array Value
  | 0 => stack
  | count + 1 => clearSlots (stack.setIfInBounds index .undefined) (index + 1) count

/-- Places of the frames, innermost first: the instruction being executed, then the calls that led there. A
caller goes on right behind its call, so the byte before that belongs to the call. -/
def trace (program : Program) (machine : Machine) : List Place :=
  match machine.frames with
  | [] => []
  | frame :: callers =>
    placeOf frame machine.opIp :: callers.map fun caller => placeOf caller (caller.resume - 1)
where
  placeOf (frame : Frame) (offset : Nat) : Place :=
    program.sources.place (frame.code.sources.position offset)

/-- What an allowance of allocations is at the start of a run: one more than may be made, since
the charge that leaves nothing is the first to be refused. It stops at the largest number. -/
def initialBudget (limits : Limits) : Int := min (limits.maxAllocations + 1) maxSigned

def blank (limits : Limits) (main : FunctionCode) : Machine :=
  { stack := Array.replicate limits.stackSize .undefined
    code := main.instructions
    budget := initialBudget limits }

end Machine

/-- A machine at work, with what it shares. -/
structure Active where
  world : World
  machine : Machine

/-- Why a machine cannot go on: a fault of the program, or the use of a slot that the stack does not
have. The latter is nobody's to handle and breaks the whole run. -/
inductive Stop where
  | fault (fault : Fault)
  | outOfRange
  deriving DecidableEq

/-- What a machine does. What it did before it stopped remains done. -/
abbrev Act := EStateM Stop Active

namespace Act

@[inline] def fail {α : Type} (fault : Fault) : Act α := fun active => .error (.fault fault) active

@[inline] def onStore {α : Type} (action : StoreM α) : Act α := fun ⟨world, machine⟩ =>
  match world.compute action with
  | (.ok result, world) => .ok result ⟨world, machine⟩
  | (.error fault, world) => .error (.fault fault) ⟨world, machine⟩

@[inline] def onMachine (change : Machine → Machine) : Act Unit :=
  fun ⟨world, machine⟩ => .ok () ⟨world, change machine⟩

@[inline] def readStore {α : Type} (view : Store → α) : Act α := fun active => .ok (view active.world.store) active

@[inline] def readMachine {α : Type} (view : Machine → α) : Act α := fun active => .ok (view active.machine) active

@[inline] def ofExcept {α : Type} (result : Except Fault α) : Act α :=
  match result with
  | .ok value => return value
  | .error fault => fail fault

/-- Goes on only if an index is in range. -/
@[inline] def require (inside : Prop) [Decidable inside] : Act Unit := fun active =>
  if inside then .ok () active else .error .outOfRange active

@[inline] def slot (index : Nat) : Act Value := fun active =>
  match active.machine.stack[index]? with
  | some value => .ok value active
  | none => .error .outOfRange active

/-- The values in the slots from one index to before another. -/
@[inline] def slots (first last : Nat) : Act (Array Value) := fun active =>
  if first ≤ last ∧ last ≤ active.machine.stack.size then
    .ok (active.machine.stack.extract first last) active
  else .error .outOfRange active

@[inline] def setSlot (index : Nat) (value : Value) : Act Unit := fun ⟨world, machine⟩ =>
  if index < machine.stack.size then
    .ok () ⟨world, { machine with stack := machine.stack.setIfInBounds index value }⟩
  else .error .outOfRange ⟨world, machine⟩

@[inline] def push (value : Value) : Act Unit := fun ⟨world, machine⟩ =>
  if machine.sp < machine.stack.size then
    .ok () ⟨world, { machine with
      stack := machine.stack.setIfInBounds machine.sp value
      sp := machine.sp + 1 }⟩
  else .error (.fault .stackOverflow) ⟨world, machine⟩

/-- Takes a value off the stack and empties its slot. -/
@[inline] def pop : Act Value := fun ⟨world, machine⟩ =>
  match machine.sp with
  | 0 => .error (.fault .stackUnderflow) ⟨world, machine⟩
  | below + 1 =>
    match machine.stack[below]? with
    | none => .error .outOfRange ⟨world, machine⟩
    | some value =>
      .ok value ⟨world, { machine with
        stack := machine.stack.setIfInBounds below .undefined
        sp := below }⟩

@[inline] def top : Act Value := fun active =>
  match active.machine.sp with
  | 0 => .error (.fault .stackUnderflow) active
  | below + 1 => slot below active

@[inline] def setTop (value : Value) : Act Unit := fun active =>
  match active.machine.sp with
  | 0 => .error .outOfRange active
  | below + 1 => setSlot below value active

/-- Empties the slots in use from an index on. -/
def dropTo (start : Nat) : Act Unit := fun ⟨world, machine⟩ =>
  if start ≤ machine.sp ∧ machine.sp ≤ machine.stack.size then
    .ok () ⟨world, { machine with
      stack := Machine.clearSlots machine.stack start (machine.sp - start)
      sp := start }⟩
  else .error .outOfRange ⟨world, machine⟩

/-- Takes several values off the stack and gives them from the lowest to the highest. -/
def popMany (count : Nat) : Act (Array Value) := do
  let sp ← readMachine (·.sp)
  if sp < count then fail .stackUnderflow
  else
    let values ← slots (sp - count) sp
    dropTo (sp - count)
    return values

@[inline] def failHere {α : Type} : Act α := fun active =>
  .error (.fault (.invalidInstruction active.machine.opIp)) active

@[inline] def readByte : Act Nat := fun ⟨world, machine⟩ =>
  match Instruction.readByte? machine.code machine.ip with
  | some operand => .ok operand ⟨world, { machine with ip := machine.ip + 1 }⟩
  | none => .error (.fault (.invalidInstruction machine.opIp)) ⟨world, machine⟩

@[inline] def readPair : Act Nat := fun ⟨world, machine⟩ =>
  match Instruction.readPair? machine.code machine.ip with
  | some operand => .ok operand ⟨world, { machine with ip := machine.ip + 2 }⟩
  | none => .error (.fault (.invalidInstruction machine.opIp)) ⟨world, machine⟩

/-- Reads a flag: any byte but zero sets it. -/
@[inline] def readFlag : Act Bool := return (← readByte) ≠ 0

@[inline] def jumpTo (target : Nat) : Act Unit := onMachine fun machine => { machine with ip := target }

@[inline] def frame : Act Frame := fun active =>
  match active.machine.frames with
  | frame :: _ => .ok frame active
  | [] => .error (.fault .stackUnderflow) active

/-- Charges one allocation, if allocations are limited. A refused charge is taken off as well, so all that
come after it are refused too. -/
@[inline] def charge (limits : Limits) : Act Unit := fun ⟨world, machine⟩ =>
  if limits.maxAllocations < 0 then .ok () ⟨world, machine⟩
  else
    let machine := { machine with budget := machine.budget - 1 }
    if machine.budget ≤ 0 then .error (.fault .allocationLimit) ⟨world, machine⟩
    else .ok () ⟨world, machine⟩

@[inline] def pushCharged (limits : Limits) (value : Value) : Act Unit := do
  charge limits
  push value

end Act

end ScriptMachine
