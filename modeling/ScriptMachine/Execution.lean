import ScriptMachine.Machine.Step
import ScriptMachine.Assembler

/-! Executions: a running machine or native code at work, and the machines that wait for it. Every
step is one instruction or one act of native code, so each state of a run can be named. -/

namespace ScriptMachine

/-- Native code that waits for the answer of a call. -/
inductive Native where
  /-- Names the callee in argument faults that pass. -/
  | label (callee : Value)
  /-- Holds the callee of a call until the answer, even if nobody else does any more. -/
  | holding (callee : Value)
  /-- Gives the instance under construction, whatever the constructor returns. -/
  | construct (object : Ref)
  /-- A host program that goes on with the answer, and what it holds until then. -/
  | routine (context : CallContext) (held : List Value) (next : Except Fault Value → HostProgram)

def Native.values : Native → List Value
  | label callee | holding callee => [callee]
  | construct object => [.object object]
  | routine context held _ => context.values ++ held

/-- A machine in the middle of an instruction, with the native code it has called, innermost
first. -/
structure Suspended where
  machine : Machine
  pending : Pending
  natives : List Native := []

def Suspended.refs (suspended : Suspended) : List Ref :=
  suspended.machine.refs ++
    (suspended.pending.values ++ suspended.natives.flatMap Native.values).flatMap Value.refs

/-- Who is at work, above the machines that wait. -/
inductive Control where
  | running (machine : Machine) (chain : List Suspended)
  | native (task : Task) (caller : Suspended) (chain : List Suspended)

structure Execution where
  world : World
  control : Control

/-- What stays the same during an execution. -/
structure Setting where
  program : Program
  host : Host
  /-- Values that the embedding program holds. -/
  pinned : List Value := []

/-- The references that are held outside the running machine. -/
def Setting.outside (setting : Setting) (chain : List Suspended) : List Ref :=
  (setting.program.values ++ setting.pinned).flatMap Value.refs ++ chain.flatMap Suspended.refs

/-- The outcome of a step: another state, the end, or a machine that has used a slot which its stack
does not have. -/
inductive Progress where
  | next (execution : Execution)
  | done (world : World) (machine : Machine) (result : Except Fault Value)
  | broken

namespace World

def setBusy (world : World) (function : Ref) (busy : Bool) : World :=
  { world with store := world.store.setBusy function busy }

end World

namespace Execution

/-- The code that starts a native-side call: it calls what it finds on the stack and stops. -/
def trampoline : FunctionCode :=
  { instructions := assemble [⟨.call, [0, 1, 0, 1]⟩, ⟨.suspend, []⟩] }

/-- The machine that runs a native-side call. Below the call's arguments its stack is empty. -/
def child (limits : Limits) (caller : Machine) (function : Ref) (arguments keywords : Value) :
    Machine :=
  { stack := #[.function function, arguments, keywords] ++
      Array.replicate (limits.stackSize - 3) .undefined
    sp := 3
    code := trampoline.instructions
    calls := CallStack.empty.push { function := none, code := trampoline }
    outerFrames := caller.frameDepth
    nesting := caller.nesting + 1
    budget := caller.budget
    deadline := caller.deadline
    serves := some function }

def answer (world : World) (result : Except Fault Value) (caller : Suspended)
    (chain : List Suspended) : Progress :=
  .next ⟨world, .native (.answer result) caller chain⟩

def proceed (world : World) (task : Task) (caller : Suspended) (chain : List Suspended) : Progress :=
  .next ⟨world, .native task caller chain⟩

def answerFrom (world : World) (action : StoreM Value) (caller : Suspended)
    (chain : List Suspended) : Progress :=
  let (result, world) := world.compute action
  answer world result caller chain

/-- A machine has stopped. One that served a native-side call releases the function, gives back what is
left of the budget and answers with its lowest slot. The slot is read however the machine came to stop,
behind the call or above it. -/
def finish (active : Active) (result : Except Fault Value) : List Suspended → Progress
  | [] => .done active.world active.machine result
  | caller :: chain =>
    let world := match active.machine.serves with
      | some function => active.world.setBusy function false
      | none => active.world
    let caller := { caller with machine := { caller.machine with budget := active.machine.budget } }
    match result, active.machine.stack[0]? with
    | .error fault, _ => answer world (.error fault) caller chain
    | .ok _, some value => answer world (.ok value) caller chain
    | .ok _, none => .broken

def afterAct (chain : List Suspended) : EStateM.Result Stop Active Next → Progress
  | .ok .proceed active => .next ⟨active.world, .running active.machine chain⟩
  | .ok .halt active => finish active (.ok .undefined) chain
  | .ok (.await task pending) active =>
    proceed active.world task { machine := active.machine, pending } chain
  | .error (.fault fault) active => finish active (.error fault) chain
  | .error .outOfRange _ => .broken

/-- Starts a native-side call of a function on a machine of its own. Every way out of it goes through
`finish`, which releases the function. -/
def enterChild (setting : Setting) (world : World) (function : Ref) (arguments : Array Value)
    (keywords : Table Value) (caller : Suspended) (chain : List Suspended) : Progress :=
  if caller.machine.nesting ≥ setting.program.limits.maxNestedCalls then
    answer world (.error .stackOverflow) caller chain
  else if !world.store.isIdle function then
    answer world (.error .functionRunning) caller chain
  else
    let world := world.setBusy function true
    let make : StoreM (Value × Value) := do
      return (← StoreM.newArray arguments .writable, ← StoreM.newMap keywords .writable)
    match world.compute make with
    | (.ok (arguments, keywords), world) =>
      let machine :=
        child setting.program.limits caller.machine function arguments keywords
      .next ⟨world, .running machine (caller :: chain)⟩
    | (.error fault, world) => answer world (.error fault) caller chain

/-- Whether an instance is still there when native code makes a call. -/
def lives (setting : Setting) (world : World) (request : Request) (caller : Suspended)
    (chain : List Suspended) (ref : Ref) : Bool :=
  world.store.keeps
    (request.values.flatMap Value.refs ++ caller.machine.nearRefs)
    (fun _ => world.refs ++ caller.refs ++ setting.outside chain) ref

def callPlain (setting : Setting) (world : World) (request : Request) (caller : Suspended)
    (chain : List Suspended) : Progress :=
  match request.callee with
  | .function ref =>
    enterChild setting world ref request.arguments request.keywords caller chain
  | .bound _ hold callee receiver =>
    match Value.heldReceiver? (lives setting world request caller chain) hold receiver, callee with
    | none, _ => answer world (.error .receiverGone) caller chain
    | some receiver, .function ref =>
      enterChild setting world ref (#[receiver] ++ request.arguments) request.keywords caller chain
    | some receiver, native =>
      proceed world (.invoke native ⟨request.arguments, request.keywords, some receiver⟩) caller chain
  | native =>
    proceed world (.invoke native ⟨request.arguments, request.keywords, none⟩) caller chain

/-- A native-side call. With a receiver, a function is called as it is, so its busy flag guards
against calls from inside; anything else is bound first. -/
def call (setting : Setting) (world : World) (request : Request) (caller : Suspended)
    (chain : List Suspended) : Progress :=
  let caller := { caller with natives := .holding request.callee :: caller.natives }
  match request.receiver, request.callee with
  | none, _ => callPlain setting world request caller chain
  | some receiver, .function ref =>
    enterChild setting world ref (#[receiver] ++ request.arguments) request.keywords caller chain
  | some receiver, other =>
    match world.compute (StoreM.bind .strong receiver other) with
    | (.ok bound, world) =>
      proceed world (.call { request with callee := bound, receiver := none }) caller chain
    | (.error fault, world) => answer world (.error fault) caller chain

/-- Calls a type: makes an instance of the fields' defaults and the keywords, or leaves the work to
the type's constructor. -/
def construct (world : World) (type : Ref) (context : CallContext) (caller : Suspended)
    (chain : List Suspended) : Progress :=
  match (world.store.type type).constructor with
  | none =>
    if context.arguments.isEmpty then
      answerFrom world (return .object (← StoreM.newObjectWith type context.keywords)) caller chain
    else answer world (.error (.wrongNumArguments 0 context.arguments.size)) caller chain
  | some (.function ref) =>
    match world.compute (StoreM.newObject type) with
    | (.ok object, world) =>
      proceed world
        (.call ⟨.function ref, some (.object object), context.arguments, context.keywords⟩)
        { caller with natives := .construct object :: caller.natives } chain
    | (.error fault, world) => answer world (.error fault) caller chain
  | some constructor =>
    proceed world (.call ⟨constructor, some (.type type), context.arguments, context.keywords⟩)
      caller chain

/-- Calls a native callable. Argument faults that leave it are labelled with its name. -/
def invoke (setting : Setting) (world : World) (callee : Value) (context : CallContext)
    (caller : Suspended) (chain : List Suspended) : Progress :=
  let caller := { caller with natives := .label callee :: caller.natives }
  match callee with
  | .builtin _ entry => answerFrom world (entry.function.run context) caller chain
  | .mapper _ subject => answerFrom world (runMapper subject context) caller chain
  | .host _ function => proceed world (.routine context (setting.host function.routine context))
      caller chain
  | .type ref => construct world ref context caller chain
  | .function _ | .bound .. =>
    proceed world (.call { callee, arguments := context.arguments, keywords := context.keywords })
      caller chain
  | other => answer world (.error (.notCallable (other.kind world.store))) caller chain

def routine (world : World) (context : CallContext) (program : HostProgram) (caller : Suspended)
    (chain : List Suspended) : Progress :=
  match program with
  | .reply result => answer world result caller chain
  | .inspect next => proceed world (.routine context (next world.store)) caller chain
  | .newArray elements next => made (StoreM.newArray elements .writable) next
  | .newMap entries next => made (StoreM.newMap entries .writable) next
  | .newError payload next => made (StoreM.newError payload) next
  | .call request held next =>
    proceed world (.call request)
      { caller with natives := .routine context held next :: caller.natives } chain
  | .abort next => proceed { world with aborting := true } (.routine context next) caller chain
where
  made (make : StoreM Value) (next : Value → HostProgram) : Progress :=
    match world.compute make with
    | (.ok value, world) => proceed world (.routine context (next value)) caller chain
    | (.error fault, world) => answer world (.error fault) caller chain

/-- Hands a result to the native code that waits for it, or to the machine below. No host program sees a
fault that ends the session. A fault that has a name already keeps it, so the innermost label counts. -/
def deliver (setting : Setting) (world : World) (result : Except Fault Value) (caller : Suspended)
    (chain : List Suspended) : Progress :=
  match caller.natives with
  | .label callee :: natives =>
    answer world (result.mapError (·.inCall (callee.kind world.store))) { caller with natives } chain
  | .holding _ :: natives => answer world result { caller with natives } chain
  | .construct object :: natives =>
    answer world (result.map fun _ => .object object) { caller with natives } chain
  | .routine context _ next :: natives =>
    if result matches .error .cellHeld then answer world result { caller with natives } chain
    else proceed world (.routine context (next result)) { caller with natives } chain
  | [] =>
    match caller.pending with
    | .host => .done world caller.machine result
    | pending =>
      afterAct chain (Act.resume setting.program.limits pending result ⟨world, caller.machine⟩)

def step (setting : Setting) (execution : Execution) : Progress :=
  match execution with
  | ⟨world, .running machine chain⟩ =>
    afterAct chain
      (Act.step ⟨setting.program, fun _ => setting.outside chain⟩ ⟨world, machine⟩)
  | ⟨world, .native (.call request) caller chain⟩ => call setting world request caller chain
  | ⟨world, .native (.invoke callee context) caller chain⟩ =>
    invoke setting world callee context caller chain
  | ⟨world, .native (.routine context program) caller chain⟩ =>
    routine world context program caller chain
  | ⟨world, .native (.answer result) caller chain⟩ => deliver setting world result caller chain

/-- Steps until the end, but at most `fuel` times. -/
def run (setting : Setting) : Nat → Execution → Progress
  | 0, execution => .next execution
  | fuel + 1, execution =>
    match step setting execution with
    | .next execution => run setting fuel execution
    | .done world machine result => .done world machine result
    | .broken => .broken

end Execution

end ScriptMachine
