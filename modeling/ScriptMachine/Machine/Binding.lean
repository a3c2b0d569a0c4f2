import ScriptMachine.Machine

/-! Binding arguments to parameters, and the frames that bound calls run in. -/

namespace ScriptMachine

namespace StoreM

def bindPositional (code : FunctionCode) (arguments : Array Value) : StoreM (Array Value) := do
  if code.variadic then
    if arguments.size < code.arity then
      throw (.wrongNumArgumentsAtLeast code.arity arguments.size)
    else
      let rest ← newArray (arguments.extract code.arity) .writable
      return (arguments.extract 0 code.arity).push rest
  else if arguments.size ≠ code.arity then throw (.wrongNumArguments code.arity arguments.size)
  else return arguments

def undeclared (code : FunctionCode) (keywords : Table Value) : Table Value :=
  keywords.filterKeys fun name => (code.keywordIndex? name).isNone

/-- The value of a declared keyword: the one passed, unless that asks for the default. -/
def keywordValue (keywords : Table Value) (name : String) (default : Value) : Value :=
  match keywords.get? name with
  | none | some .useDefault => default
  | some value => value

/-- Fails for the least of the keywords that a function does not declare. -/
def refuseUndeclared (code : FunctionCode) (keywords : Table Value) : StoreM Unit :=
  match (undeclared code keywords).keys with
  | [] => return ()
  | name :: _ =>
    throw (if code.keywords.isEmpty then .unexpectedKeywords else .unexpectedKeyword name)

def declaredKeywords (code : FunctionCode) (keywords : Table Value) : Array Value :=
  (code.keywords.map fun (name, default) => keywordValue keywords name default).toArray

/-- The keyword parameters, with undeclared keywords in a new map if the function takes them. -/
def bindKeywords (code : FunctionCode) (keywords : Table Value) : StoreM (Array Value) := do
  if code.catchAll then
    return (declaredKeywords code keywords).push (← newMap (undeclared code keywords) .writable)
  else
    refuseUndeclared code keywords
    return declaredKeywords code keywords

/-- The parameter slots of a call. Faults of positional arguments come first. -/
def bindArguments (code : FunctionCode) (arguments : Array Value) (keywords : Table Value) :
    StoreM (Array Value) := do
  let positional ← bindPositional code arguments
  let keyed ← bindKeywords code keywords
  return positional ++ keyed

end StoreM

namespace Machine

/-- Whether the next instruction returns, possibly after dropping one value. Only the operations count, not
whether the return hands on a value. -/
def followedByReturn (machine : Machine) : Bool :=
  match operation machine.ip with
  | some .ret => true
  | some .pop => operation (machine.ip + 1) == some .ret
  | _ => false
where
  operation (offset : Nat) : Option Opcode := machine.code[offset]?.bind Opcode.ofByte?

/-- The stack with parameters at a base, and every slot from there to `stop` emptied. -/
def loadSlots (stack : Array Value) (base stop : Nat) (parameters : Array Value) : Array Value :=
  let loaded := fillSlots stack base parameters.toList
  clearSlots loaded (base + parameters.size) (stop - (base + parameters.size))

def canLoad (stack : Array Value) (base stop : Nat) (parameters : Array Value) : Bool :=
  base + parameters.size ≤ stop && stop ≤ stack.size

/-- Whether a call of a function can take over the running frame: the function calls itself and
returns at once. -/
def reusesFrame (machine : Machine) (function : Ref) : Bool :=
  match machine.frames with
  | frame :: _ => frame.function == some function && machine.followedByReturn
  | [] => false

/-- Why a call cannot take over the running frame, if it cannot. -/
def restartStop? (machine : Machine) (frameSize : Nat) (parameters : Array Value) : Option Stop :=
  match machine.frames with
  | [] => some (.fault .stackUnderflow)
  | frame :: _ =>
    let stop := frame.base + frameSize
    if stop > machine.stack.size then some (.fault .stackOverflow)
    else if canLoad machine.stack frame.base (max machine.sp stop) parameters then none
    else some .outOfRange

def restartFrame (machine : Machine) (frameSize : Nat) (parameters arguments : Array Value)
    (keywords : Table Value) : Machine :=
  let base := (machine.frames.head?.map Frame.base).getD 0
  { machine with
    stack := loadSlots machine.stack base (max machine.sp (base + frameSize)) parameters
    sp := base + frameSize
    ip := 0
    calls := machine.calls.changeTop fun frame => { frame with arguments, keywords } }

def pushStop? (limits : Limits) (machine : Machine) (frame : Frame) (parameters : Array Value) :
    Option Stop :=
  let stop := frame.base + frame.code.frameSize
  if machine.frameDepth ≥ limits.maxFrames then some (.fault .stackOverflow)
  else if stop > machine.stack.size then some (.fault .stackOverflow)
  else if canLoad machine.stack frame.base (max machine.sp stop) parameters then none
  else some .outOfRange

/-- Enters a function in a new frame, and notes in the frame below where that goes on. -/
def pushFrame (machine : Machine) (frame : Frame) (parameters : Array Value) : Machine :=
  let stop := frame.base + frame.code.frameSize
  { machine with
    stack := loadSlots machine.stack frame.base (max machine.sp stop) parameters
    sp := stop
    code := frame.code.instructions
    ip := 0
    calls := (machine.calls.changeTop fun caller => { caller with resume := machine.ip }).push frame }

def popStop? (machine : Machine) : Option Stop :=
  match machine.frames with
  | frame :: _ :: _ =>
    if 1 ≤ frame.base ∧ max machine.sp frame.base ≤ machine.stack.size then none
    else some .outOfRange
  | _ => some (.fault .stackUnderflow)

/-- Leaves the running frame with a result, which goes where the callee was, into the slot below the
base. -/
def popFrame (machine : Machine) (result : Value) : Machine :=
  match machine.frames with
  | frame :: caller :: _ =>
    { machine with
      stack := (clearSlots machine.stack frame.base (machine.sp - frame.base)).setIfInBounds
        (frame.base - 1) result
      sp := frame.base
      code := caller.code.instructions
      ip := caller.resume
      calls := machine.calls.pop }
  | _ => machine

end Machine

def Function.frame (callee : Function) (function : Ref) (arguments : Array Value)
    (keywords : Table Value) (base : Nat) : Frame :=
  { function := some function, code := callee.code, free := callee.free, arguments, keywords, base }

namespace Act

def changeUnless (stop? : Machine → Option Stop) (change : Machine → Machine) : Act Unit :=
  fun ⟨world, machine⟩ =>
    match stop? machine with
    | some stop => .error stop ⟨world, machine⟩
    | none => .ok () ⟨world, change machine⟩

def enterFrame (limits : Limits) (function : Ref) (callee : Function)
    (parameters arguments : Array Value) (keywords : Table Value) (start : Nat) : Act Unit :=
  let frame := callee.frame function arguments keywords start
  changeUnless (·.pushStop? limits frame parameters) (·.pushFrame frame parameters)

def reenterFrame (callee : Function) (parameters arguments : Array Value)
    (keywords : Table Value) : Act Unit :=
  let frameSize := callee.code.frameSize
  changeUnless (·.restartStop? frameSize parameters)
    (·.restartFrame frameSize parameters arguments keywords)

/-- Calls a function, in the running frame where that will do or in one based at `start`. Binding comes
first: arguments that do not fit are refused whatever room there is. -/
def enter (limits : Limits) (function : Ref) (arguments : Array Value) (keywords : Table Value)
    (start : Nat) : Act Unit := do
  let callee ← readStore (·.function function)
  let parameters ← onStore (StoreM.bindArguments callee.code arguments keywords)
  if ← readMachine (·.reusesFrame function) then
    reenterFrame callee parameters arguments keywords
  else enterFrame limits function callee parameters arguments keywords start

end Act

end ScriptMachine
