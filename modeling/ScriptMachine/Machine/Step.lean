import ScriptMachine.Machine.Binding
import ScriptMachine.Value.Arithmetic
import ScriptMachine.Value.Equality
import ScriptMachine.Value.Slice

/-! One instruction. What it needs from native code is not done here: the machine names the task and
what is left to do once it is answered. -/

namespace ScriptMachine

inductive Task where
  /-- A call as native code makes it. -/
  | call (request : Request)
  /-- A call of a native callable. -/
  | invoke (callee : Value) (context : CallContext)
  /-- A host program under way. -/
  | routine (context : CallContext) (program : HostProgram)
  /-- A result to be handed on. -/
  | answer (result : Except Fault Value)

/-- An assignment along selectors. They are all held until it is done. -/
structure Assignment where
  /-- The selectors as given: the first one is the last step of the way. -/
  selectors : List Value
  last : Value
  value : Value

def Assignment.values (assignment : Assignment) : List Value :=
  assignment.value :: assignment.last :: assignment.selectors

/-- What is left of an instruction that waits for an answer, and the values it holds meanwhile. -/
inductive Pending where
  /-- Puts the answer on the stack. -/
  | push (held : List Value)
  /-- Walks on from the answer along selectors and assigns at the end. -/
  | walk (assignment : Assignment) (rest held : List Value)
  /-- Needs no answer. -/
  | finish (held : List Value)
  /-- Replaces a native call, whose arguments begin at `start`, by its answer. -/
  | native (start : Nat) (fromStack : Bool)
  /-- Gives the answer to the host. -/
  | host

def Pending.values : Pending → List Value
  | push held | finish held => held
  | walk assignment rest held => assignment.values ++ rest ++ held
  | native .. | host => []

inductive Next where
  | proceed
  | halt
  | await (task : Task) (pending : Pending)

/-- What an instruction can use besides the machine it runs on. -/
structure Surroundings where
  program : Program
  /-- The references that are held outside the machine. -/
  outside : Unit → List Ref

namespace Act

/-- The receiver of a bound method. One that is held weakly is gone once nothing else holds it. -/
def receiver (around : Surroundings) (hold : Hold) (value : Value) : Act Value := fun active =>
  let lives (ref : Ref) : Bool :=
    active.world.store.keeps active.machine.nearRefs
      (fun _ => active.world.refs ++ active.machine.refs ++ around.outside ()) ref
  match Value.heldReceiver? lives hold value with
  | some value => .ok value active
  | none => .error (.fault .receiverGone) active

@[inline] def global (index : Nat) : Act Value := fun active =>
  match active.world.globals[index]? with
  | some value => .ok value active
  | none => .error (.fault (.invalidInstruction active.machine.opIp)) active

@[inline] def setGlobal (index : Nat) (value : Value) : Act Unit :=
  fun ⟨⟨store, globals, aborting⟩, machine⟩ =>
    if index < globals.size then
      .ok () ⟨⟨store, globals.setIfInBounds index value, aborting⟩, machine⟩
    else .error (.fault (.invalidInstruction machine.opIp)) ⟨⟨store, globals, aborting⟩, machine⟩

@[inline] def localSlot : Act Nat := do
  let index ← readByte
  let base := (← frame).base
  if base + index < (← readMachine (·.stack.size)) then return base + index
  fail .stackOverflow

/-- The value of a variable: what its box holds, if it has been captured. -/
@[inline] def unboxed (value : Value) : Act Value :=
  match value with
  | .box ref => readStore (·.boxed ref)
  | other => return other

/-- The box of a captured variable. A frame knows where it went on last, and not which of its instructions
is being executed, so that is what a fault blames. -/
@[inline] def freeBox (index : Nat) : Act Ref := do
  let frame ← frame
  match frame.free[index]? with
  | some ref => return ref
  | none => fail (.invalidInstruction frame.resume)

/-- Walks from a container along the rest of an assignment's selectors, and assigns at the end. A
setter takes the assigned value over; the selectors are held until it returns. -/
def walk (assignment : Assignment) (container : Value) : List Value → Act Next
  | [] => do
    match ← onStore (StoreM.indexSet container assignment.last assignment.value) with
    | .value _ => return .proceed
    | .call property request =>
      return .await (.call request)
        (.finish (container :: .member .property property :: assignment.selectors))
  | selector :: rest => do
    match ← onStore (StoreM.indexGet container selector) with
    | .value next => walk assignment next rest
    | .call property request =>
      return .await (.call request) (.walk assignment rest [container, .member .property property])

/-- Assigns the value below `count` selectors to the place they lead to. The last step of the way lies
lowest. -/
def assignPath (target : Value) (count : Nat) : Act Next := do
  let selectors ← popMany count
  let value ← pop
  match selectors.toList with
  | [] => failHere
  | last :: rest => walk ⟨last :: rest, last, value⟩ target rest.reverse

def pushIndexed (target index : Value) : Act Next := do
  match ← onStore (StoreM.indexGet target index) with
  | .value value =>
    push value
    return .proceed
  | .call property request =>
    return .await (.call request) (.push [target, index, .member .property property])

/-- The entries of alternating keys and values. A last key without a value gets undefined. -/
def pairUp (store : Store) (table : Table Value) : List Value → Except Fault (Table Value)
  | [] => .ok table
  | key :: rest =>
    match store.keyText? key, rest with
    | none, _ => .error (.invalidIndexType (key.kind store))
    | some key, value :: rest => pairUp store (table.insert key value) rest
    | some key, [] => .ok (table.insert key .undefined)

/-- The boxes of captured values. What is not a box yet gets a new one. -/
def captured : List Value → StoreM (List Ref)
  | [] => return []
  | .box ref :: rest => return ref :: (← captured rest)
  | value :: rest => do
    let ref ← StoreM.newBox value
    return ref :: (← captured rest)

/-- Makes a closure. Its boxes are made before the charge, which is for the closure alone. -/
def closure (program : Program) : Act Unit := do
  let index ← readPair
  let count ← readByte
  match program.constants[index]? with
  | some (.function ref) =>
    let code := (← readStore (·.function ref)).code
    let values ← popMany count
    let free ← onStore (captured values.toList)
    charge program.limits
    push (.function (← onStore (StoreM.newFunction code free.toArray)))
  | some other => fail (.notCallable (other.kind (← readStore id)))
  | none => failHere

def spread (value : Value) : Act (Array Value) := do
  match value with
  | .array _ ref => readStore (·.elements ref)
  | other => fail (.invalidArgumentType "*args" "array" (other.kind (← readStore id)))

/-- Adds the keywords of maps one after the other; later ones win. -/
def gatherKeywords (keywords : Table Value) : List Value → Act (Table Value)
  | [] => return keywords
  | .map _ ref :: rest => do
    gatherKeywords (keywords.insertAll (← readStore (·.entries ref)).entries) rest
  | .undefined :: rest => gatherKeywords keywords rest
  | other :: _ => do
    fail (.invalidArgumentType "**kwargs" "map" (other.kind (← readStore id)))

/-- A call as it stands on the stack: what is called, with what, and where its arguments begin. -/
structure CallSite where
  start : Nat
  callee : Value
  arguments : Array Value
  keywords : Table Value

/-- Where `arity` arguments begin. A callee stands below them. -/
def argumentStart (arity : Nat) : Act Nat := do
  let sp ← readMachine (·.sp)
  if sp < arity + 1 then fail .stackUnderflow else return sp - arity

def requireCallable (callee : Value) : Act Unit := do
  if callee.isCallable then return () else fail (.notCallable (callee.kind (← readStore id)))

def spreadArguments (spreads : Bool) (index : Nat) : Act (Array Value) := do
  if spreads then spread (← slot index) else return #[]

/-- Reads a call off the code and the stack, where the maps of keywords lie on top. -/
def callSite : Act CallSite := do
  let count ← readByte
  let spreads ← readFlag
  let keyed ← readFlag
  let catches ← readFlag
  let start ← argumentStart (count + spreads.toNat + keyed.toNat + catches.toNat)
  let callee ← slot (start - 1)
  requireCallable callee
  let positional ← slots start (start + count)
  let more ← spreadArguments spreads (start + count)
  let maps ← slots (start + count + spreads.toNat) (← readMachine (·.sp))
  let keywords ← gatherKeywords {} maps.toList
  return { start, callee, arguments := positional ++ more, keywords }

/-- What a call comes down to: a function with all its arguments, or work for native code. -/
inductive CallTarget where
  | function (ref : Ref) (arguments : Array Value)
  | native (callee : Value) (context : CallContext) (fromStack : Bool)

/-- Finds out what is called. A bound method brings its receiver; a native callable that wants one
takes the value below it. -/
def resolve (around : Surroundings) (site : CallSite) : Act CallTarget :=
  match site.callee with
  | .function ref => return .function ref site.arguments
  | .bound _ hold (.function ref) value => do
    return .function ref (#[← receiver around hold value] ++ site.arguments)
  | .bound _ hold native value => do
    let value ← receiver around hold value
    return .native native ⟨site.arguments, site.keywords, some value⟩ false
  | native => do
    if native.isMethod (← readStore id) && site.start ≥ 2 then
      let value ← slot (site.start - 2)
      return .native native ⟨site.arguments, site.keywords, some value⟩ true
    else return .native native ⟨site.arguments, site.keywords, none⟩ false

def call (around : Surroundings) : Act Next := do
  let site ← callSite
  match ← resolve around site with
  | .function ref arguments =>
    enter around.program.limits ref arguments site.keywords site.start
    return .proceed
  | .native callee context fromStack =>
    return .await (.invoke callee context) (.native site.start fromStack)

/-- What a return hands on: the value on top of the stack, or nothing. -/
def returned : Act Value := do
  if ← readFlag then pop else return .undefined

/-- Leaves the running frame with a result; leaving the last frame ends the run. -/
def leave (result : Value) : Act Next := do
  if (← readMachine (·.calls.depth)) ≤ 1 then return .halt
  else
    changeUnless (·.popStop?) (·.popFrame result)
    return .proceed

def returnFrom : Act Next := do leave (← returned)

@[inline] def popIterator : Act Ref := do
  match ← pop with
  | .iterator ref => return ref
  | other => fail (.notIterable (other.kind (← readStore id)))

@[inline] def thenProceed (act : Act Unit) : Act Next := do
  act
  return .proceed

/-- Constants and variables. Once a variable has been captured, its slot holds the box that it lives in,
and every closure over it sees the change. Assigning one that is not there takes the value off the stack
all the same. -/
def access (program : Program) (op : Opcode) : Act Next := do
  match op with
  | .constant =>
    let index ← readPair
    match program.constants[index]? with
    | some value => thenProceed (push value)
    | none => failHere
  | .pushUndefined => thenProceed (push .undefined)
  | .pushDefault => thenProceed (push .useDefault)
  | .pushTrue => thenProceed (push (.bool true))
  | .pushFalse => thenProceed (push (.bool false))
  | .pop =>
    let _ ← pop
    return .proceed
  | .getGlobal =>
    let value ← global (← readPair)
    thenProceed (push value)
  | .setGlobal =>
    let index ← readPair
    let value ← pop
    thenProceed (setGlobal index value)
  | .setGlobalPath =>
    let index ← readPair
    let count ← readByte
    assignPath (← global index) count
  | .getLocal =>
    let index ← localSlot
    thenProceed (push (← unboxed (← slot index)))
  | .setLocal =>
    let index ← localSlot
    let value ← pop
    match ← slot index with
    | .box ref => thenProceed (onStore (StoreM.write ref (.box value)))
    | _ => thenProceed (setSlot index value)
  | .defineLocal =>
    let index ← localSlot
    let value ← pop
    thenProceed (setSlot index value)
  | .setLocalPath =>
    let index ← localSlot
    let count ← readByte
    assignPath (← unboxed (← slot index)) count
  | .getLocalBox =>
    let index ← localSlot
    match ← slot index with
    | .box ref => thenProceed (push (.box ref))
    | value =>
      let ref ← onStore (StoreM.newBox value)
      setSlot index (.box ref)
      thenProceed (push (.box ref))
  | .getBuiltin =>
    let index ← readByte
    match program.builtins[index]? with
    | some value => thenProceed (push value)
    | none => failHere
  | .getFree =>
    let box ← freeBox (← readByte)
    thenProceed (push (← readStore (·.boxed box)))
  | .setFree =>
    let index ← readByte
    let value ← pop
    let box ← freeBox index
    thenProceed (onStore (StoreM.write box (.box value)))
  | .getFreeBox =>
    let box ← freeBox (← readByte)
    thenProceed (push (.box box))
  | .setFreePath =>
    let index ← readByte
    let count ← readByte
    let box ← freeBox index
    assignPath (← readStore (·.boxed box)) count
  | _ => fail (.unknownOpcode op.byte)

def operator (limits : Limits) (op : Opcode) : Act Next := do
  match op with
  | .binary =>
    let token ← readByte
    match Operator.ofByte? token.toUInt8 with
    | none => failHere
    | some operator =>
      let right ← pop
      let left ← pop
      let result ← onStore (Value.binary operator left right)
      thenProceed (pushCharged limits result)
  | .equal =>
    let right ← pop
    let left ← pop
    thenProceed (push (.bool (← readStore (·.equal left right))))
  | .notEqual =>
    let right ← pop
    let left ← pop
    thenProceed (push (.bool (!(← readStore (·.equal left right)))))
  | .logicalNot =>
    let value ← pop
    thenProceed (push (.bool (← readStore (value.isFalsy ·))))
  | .complement =>
    let value ← pop
    let result ← ofExcept (← readStore (value.complement ·))
    thenProceed (pushCharged limits result)
  | .negate =>
    let value ← pop
    let result ← ofExcept (← readStore (value.negative ·))
    thenProceed (pushCharged limits result)
  | _ => fail (.unknownOpcode op.byte)

/-- Jumps and the end of a run. -/
def control (op : Opcode) : Act Next := do
  match op with
  | .jump => thenProceed (jumpTo (← readPair))
  | .jumpFalsy =>
    let target ← readPair
    let value ← pop
    if ← readStore (value.isFalsy ·) then thenProceed (jumpTo target) else return .proceed
  | .andJump =>
    let target ← readPair
    let value ← top
    if ← readStore (value.isFalsy ·) then thenProceed (jumpTo target)
    else
      let _ ← pop
      return .proceed
  | .orJump =>
    let target ← readPair
    let value ← top
    if ← readStore (value.isFalsy ·) then
      let _ ← pop
      return .proceed
    else thenProceed (jumpTo target)
  | .suspend => return .halt
  | _ => fail (.unknownOpcode op.byte)

def containers (limits : Limits) (op : Opcode) : Act Next := do
  match op with
  | .array =>
    let elements ← popMany (← readPair)
    charge limits
    thenProceed (push (← onStore (StoreM.newArray elements .writable)))
  | .map =>
    let elements ← popMany (← readPair)
    let entries ← ofExcept (pairUp (← readStore id) {} elements.toList)
    charge limits
    thenProceed (push (← onStore (StoreM.newMap entries .writable)))
  | .error =>
    let value ← pop
    charge limits
    thenProceed (push (← onStore (StoreM.newError value)))
  | .freeze =>
    match ← pop with
    | .array .writable ref => thenProceed (pushCharged limits (.array .frozen ref))
    | .map .writable ref => thenProceed (pushCharged limits (.map .frozen ref))
    | other => thenProceed (push other)
  | .index =>
    let index ← pop
    let target ← pop
    pushIndexed target index
  | .slice =>
    let high ← pop
    let low ← pop
    let target ← pop
    let part ← onStore (target.slice low high)
    thenProceed (pushCharged limits part)
  | _ => fail (.unknownOpcode op.byte)

/-- Calls and what a call knows of itself. Only the code that starts a native-side call runs without a
function, and it never asks for one. -/
def functions (around : Surroundings) (op : Opcode) : Act Next := do
  match op with
  | .call => call around
  | .ret => returnFrom
  | .closure => thenProceed (closure around.program)
  | .callee =>
    let frame ← frame
    thenProceed (push ((frame.function.map .function).getD .undefined))
  | .callArguments =>
    let frame ← frame
    thenProceed (push (← onStore (StoreM.newArray frame.arguments .frozen)))
  | .callKeywords =>
    let frame ← frame
    thenProceed (push (← onStore (StoreM.newMap frame.keywords .frozen)))
  | _ => fail (.unknownOpcode op.byte)

def iteration (limits : Limits) (op : Opcode) : Act Next := do
  match op with
  | .iterate =>
    let value ← pop
    let sequence ← ofExcept (Sequence.of (← readStore id) value)
    charge limits
    let ref ← onStore (StoreM.alloc (.iterator (.start sequence)))
    thenProceed (push (.iterator ref))
  | .iteratorNext =>
    let ref ← popIterator
    thenProceed (push (.bool (← onStore (StoreM.iteratorNext ref))))
  | .iteratorKey =>
    let ref ← popIterator
    thenProceed (push (← readStore fun store => (store.cursor ref).key))
  | .iteratorValue =>
    let ref ← popIterator
    thenProceed (push (← readStore fun store => (store.cursor ref).value store))
  | _ => fail (.unknownOpcode op.byte)

def execute (around : Surroundings) (op : Opcode) : Act Next :=
  match op with
  | .binary | .equal | .notEqual | .logicalNot | .complement | .negate =>
    operator around.program.limits op
  | .jumpFalsy | .andJump | .orJump | .jump | .suspend => control op
  | .array | .map | .error | .freeze | .index | .slice => containers around.program.limits op
  | .call | .ret | .closure | .callee | .callArguments | .callKeywords => functions around op
  | .iterate | .iteratorNext | .iteratorKey | .iteratorValue =>
    iteration around.program.limits op
  | _ => access around.program op

/-- Each operation belongs to one of the six groups. -/
theorem execute_cases (around : Surroundings) (op : Opcode) :
    execute around op = access around.program op ∨
      execute around op = operator around.program.limits op ∨
      execute around op = control op ∨
      execute around op = containers around.program.limits op ∨
      execute around op = functions around op ∨
      execute around op = iteration around.program.limits op := by
  cases op with
  | binary | equal | notEqual | logicalNot | complement | negate => exact .inr (.inl rfl)
  | jumpFalsy | andJump | orJump | jump | suspend => exact .inr (.inr (.inl rfl))
  | array | map | error | freeze | index | slice => exact .inr (.inr (.inr (.inl rfl)))
  | call | ret | closure | callee | callArguments | callKeywords =>
    exact .inr (.inr (.inr (.inr (.inl rfl))))
  | iterate | iteratorNext | iteratorKey | iteratorValue =>
    exact .inr (.inr (.inr (.inr (.inr rfl))))
  | _ => exact .inl rfl

/-- Stops a run that has been asked to stop, or whose deadline says so. One machine has looked at the
deadline then, and the request stops the others. -/
@[inline] def observe : Act Unit := fun ⟨world, machine⟩ =>
  if world.aborting then .error (.fault .aborted) ⟨world, machine⟩
  else
    match machine.expiry? world.store with
    | some fault => .error (.fault fault) ⟨{ world with aborting := true }, machine⟩
    | none => .ok () ⟨world, machine⟩

@[inline] def fetch : Act Opcode := fun ⟨world, machine⟩ =>
  let offset := machine.ip
  match machine.code[offset]? with
  | none =>
    .error (.fault (.invalidInstruction offset))
      ⟨world, { machine with ticks := machine.ticks + 1, opIp := offset }⟩
  | some byte =>
    let machine := { machine with ticks := machine.ticks + 1, opIp := offset, ip := offset + 1 }
    match Opcode.ofByte? byte with
    | none => .error (.fault (.unknownOpcode byte)) ⟨world, machine⟩
    | some op => .ok op ⟨world, machine⟩

def step (around : Surroundings) : Act Next := do
  observe
  execute around (← fetch)

/-- Replaces a native call by its result. What native code has done stays done even if the charge for its
result is refused. -/
def finishNative (limits : Limits) (start : Nat) (fromStack : Bool) (result : Value) : Act Unit := do
  require (1 ≤ start)
  dropTo (start - 1)
  charge limits
  if fromStack then setTop result else push result

/-- Completes an instruction whose answer has come. -/
def resume (limits : Limits) (pending : Pending) (result : Except Fault Value) : Act Next := do
  let value ← ofExcept result
  match pending with
  | .push _ => thenProceed (push value)
  | .walk assignment rest _ => walk assignment value rest
  | .finish _ | .host => return .proceed
  | .native start fromStack => thenProceed (finishNative limits start fromStack value)

end Act

end ScriptMachine
