import ScriptMachine.Execution
import ScriptMachine.Literal

/-! Sessions: a program on its machine, with registers in which the embedding program keeps values
between its commands. -/

namespace ScriptMachine

structure Blueprint where
  /-- The main function. Unless given, it stops at once. -/
  main : FunctionCode := { instructions := assemble [⟨.suspend, []⟩] }
  /-- The keywords of the main function with their defaults. -/
  keywords : List (String × Literal) := []
  constants : List Literal := []
  globals : List Literal := []
  /-- Registers filled beforehand, one after the other. -/
  registers : List (String × Literal) := []
  /-- Names and texts of the source files. -/
  files : List (String × String) := []
  limits : Limits := {}

/-- A program on its machine. -/
structure Session where
  program : Program
  host : Host
  world : World
  machine : Machine
  registers : Table Value := {}

/-- Why a command gives no answer. -/
inductive Interruption where
  | fault (fault : Fault)
  /-- The steps granted to an execution were used up. -/
  | exhausted
  /-- A machine used a slot that its stack does not have. -/
  | broken

/-- What is done with a session. What was done before an interruption remains done. -/
abbrev SessionM := EStateM Interruption Session

inductive Ending where
  | completed
  | failed (failure : Failure)

namespace Blueprint

/-- Fills registers one after the other; each may use those before it. -/
def fill (registers : Table Value) : List (String × Literal) → StoreM (Table Value)
  | [] => return registers
  | (name, literal) :: rest => do
    fill (registers.insert name (← literal.build registers)) rest

/-- A new value for every builtin, in the order of their indices. -/
def builtinValues : StoreM (List Value) :=
  Builtin.registry.entries.toList.mapM fun entry => return .builtin (← StoreM.freshId) entry

/-- A list of globals, filled up to the size that the limits ask for. -/
def padGlobals (limits : Limits) (globals : List Value) : Array Value :=
  globals.toArray ++ Array.replicate (limits.globalsSize - globals.length) Value.undefined

def build (blueprint : Blueprint) : StoreM (Program × Array Value × Table Value) := do
  let registers ← fill {} blueprint.registers
  let keywords ← Literal.buildEntries registers blueprint.keywords
  let main ← StoreM.newFunction { blueprint.main with keywords } #[]
  let constants ← Literal.buildList registers blueprint.constants
  let globals ← Literal.buildList registers blueprint.globals
  let builtins ← builtinValues
  let program : Program :=
    { main, constants := constants.toArray, builtins := builtins.toArray
      sources := .ofTexts blueprint.files, limits := blueprint.limits }
  return (program, padGlobals blueprint.limits globals, registers)

end Blueprint

namespace Session

def create (host : Host) (blueprint : Blueprint) : Except Fault Session :=
  match blueprint.build {} with
  | .ok (program, globals, registers) store =>
    .ok
      { program, host, registers
        world := { store, globals }
        machine := .blank program.limits (store.function program.main).code }
  | .error fault _ => .error fault

/-- The references that the session itself holds. -/
def refs (session : Session) : List Ref :=
  (session.program.values ++ session.registers.values).flatMap Value.refs ++ session.world.refs ++
    session.machine.refs

/-- Whether an instance still exists while some values are looked at. -/
def lives (session : Session) (held : List Value) (ref : Ref) : Bool :=
  session.world.store.keeps (held.flatMap Value.refs) (fun _ => session.refs) ref

/-- What stays the same while the session executes and holds some values. -/
def setting (session : Session) (held : List Value) : Setting :=
  { program := session.program, host := session.host, pinned := held ++ session.registers.values }

def mainCode (session : Session) : FunctionCode :=
  (session.world.store.function session.program.main).code

/-- Whether only the locals of the main function are left on the stack. -/
def isStackEmpty (session : Session) : Bool := session.machine.sp ≤ session.mainCode.frameSize

/-- The machine at the start of a run. The locals of the main function have to fit on its stack. -/
def startMachine (session : Session) (deadline : Deadline) : Except Fault Machine :=
  let code := session.mainCode
  let size := session.machine.stack.size
  if code.frameSize > size then .error .stackOverflow
  else .ok
    { stack := Array.replicate size .undefined
      sp := code.frameSize
      calls := CallStack.empty.push { function := some session.program.main, code }
      code := code.instructions
      budget := Machine.initialBudget session.program.limits
      deadline }

/-- The session after a run. A request to stop ends with the run it stopped. -/
def settle (session : Session) (world : World) (machine : Machine) : Session :=
  { session with
    world := { world with aborting := false }
    machine := { machine with deadline := .unlimited } }

def ending (session : Session) (result : Except Fault Value) : Ending :=
  match result with
  | .ok _ => .completed
  | .error fault => .failed ⟨fault, session.machine.trace session.program⟩

/-- Runs the program from its start. A fault that nobody handles breaks the session off, and what the run
did is not kept. -/
def run (fuel : Nat) (deadline : Deadline) : SessionM Ending := fun session =>
  match session.startMachine deadline with
  | .error fault =>
    let session := session.settle session.world session.machine
    .ok (session.ending (.error fault)) session
  | .ok machine =>
    match Execution.run (session.setting []) fuel ⟨session.world, .running machine []⟩ with
    | .done _ _ (.error .cellHeld) => .error (.fault .cellHeld) session
    | .done world machine result =>
      let session := session.settle world machine
      .ok (session.ending result) session
    | .next execution => .error .exhausted { session with world := execution.world }
    | .broken => .error .broken session

/-- The machine of a session while the host waits for a call. -/
def caller (session : Session) : Suspended := { machine := session.machine, pending := .host }

def calling (session : Session) (request : Request) : Execution :=
  ⟨session.world, .native (.call request) session.caller []⟩

def call (fuel : Nat) (held : List Value) (request : Request) : SessionM Value := fun session =>
  match Execution.run (session.setting held) fuel (session.calling request) with
  | .done world machine (.ok value) => .ok value { session with world, machine }
  | .done world machine (.error fault) => .error (.fault fault) { session with world, machine }
  | .next execution => .error .exhausted { session with world := execution.world }
  | .broken => .error .broken session

def onStore {α : Type} (compute : StoreM α) : SessionM α := fun session =>
  match compute session.world.store with
  | .ok result store => .ok result { session with world := { session.world with store } }
  | .error fault store =>
    .error (.fault fault) { session with world := { session.world with store } }

def build (literal : Literal) : SessionM Value := do
  onStore (literal.build (← get).registers)

/-- The value of an answer, after the call that it may ask for. -/
def answered (fuel : Nat) (held : List Value) : Answer → SessionM Value
  | .value value => return value
  | .call property request => call fuel (.member .property property :: held) request

end Session

end ScriptMachine
