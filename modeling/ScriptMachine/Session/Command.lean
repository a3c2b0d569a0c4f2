import ScriptMachine.Session
import ScriptMachine.Inspection
import ScriptMachine.Listing.Program

/-! The commands that an embedding program gives to a session, and the replies it gets. -/

namespace ScriptMachine

inductive Command where
  /-- Runs the main function. -/
  | run (deadline : Deadline)
  | abort
  | isAborting
  | globals
  | global (index : Nat)
  | setGlobal (index : Nat) (value : Literal)
  | call (callee : Literal) (receiver : Option Literal) (arguments : List Literal)
      (keywords : List (String × Literal))
  /-- Gives a value back as it is. -/
  | value (value : Literal)
  | forget (register : String)
  | get (target key : Literal)
  | set (target key value : Literal)
  | delete (target : Literal) (keys : List Literal)
  | slice (target low high : Literal)
  | binary (operator : Operator) (left right : Literal)
  | negate (value : Literal)
  | complement (value : Literal)
  | equal (left right : Literal)
  | copy (value : Literal)
  | mapping (deep : Bool) (value : Literal)
  | inspect (value : Literal)
  | bind (callee receiver : Literal)
  | iterate (value : Literal)
  | next (iterator : Literal)
  | key (iterator : Literal)
  | element (iterator : Literal)
  /-- Lists all keys and elements of a value. -/
  | drain (value : Literal)
  /-- Shows several values with one numbering. -/
  | values (values : List Literal)
  /-- Appends to an array behind the machine's back. -/
  | push (target value : Literal)
  /-- Drops the last element of an array behind the machine's back. -/
  | pop (target : Literal)
  | limits
  | machine
  | listing

/-- A global as a reply shows it: what it holds, and its kind and text. -/
structure ShownGlobal where
  snapshot : Snapshot
  description : String

inductive Reply where
  | value (snapshot : Snapshot)
  /-- A value with its kind and text. -/
  | described (snapshot : Snapshot) (description : String)
  /-- There is no such value. -/
  | nothing
  | truth (b : Bool)
  | text (text : String)
  | entries (entries : List (Snapshot × Snapshot))
  | values (snapshots : List Snapshot)
  | globals (shown : List ShownGlobal) (count : Nat)
  | inspection (inspection : Inspection)
  /-- A run came to its end. -/
  | completed (isStackEmpty : Bool) (globals : List ShownGlobal) (machine : String)
  /-- A run failed. -/
  | failed (failure : Failure) (globals : List ShownGlobal)
  | interrupted (reason : Interruption)

namespace Session

/-- Snapshots of some values with one numbering. -/
def snapshots (values : List Value) : SessionM (List Snapshot) := fun session =>
  .ok (session.world.store.snapshots (session.lives values) values) session

def snapshot (value : Value) : SessionM Snapshot := fun session =>
  .ok (session.world.store.snapshot (session.lives [value]) value) session

def describe (value : Value) : SessionM String := return (← get).world.store.describe value

/-- The first globals; those beyond the last one are undefined. -/
def shownGlobals (count : Nat) : SessionM (List ShownGlobal) := do
  let globals := (← get).world.globals
  let values := (List.range count).map fun index => globals[index]?.getD .undefined
  let descriptions ← values.mapM describe
  return (← snapshots values).zipWith ShownGlobal.mk descriptions

/-- Keeps a value in a register, if one is named. -/
def keep (register : Option String) (value : Value) : SessionM Unit :=
  match register with
  | some name => modify fun session => { session with registers := session.registers.insert name value }
  | none => return ()

def reply (register : Option String) (value : Value) : SessionM Reply := do
  let shown ← snapshot value
  keep register value
  return .value shown

def ofExcept {α : Type} (result : Except Fault α) : SessionM α :=
  match result with
  | .ok value => return value
  | .error fault => throw (.fault fault)

/-- Changes a global; says whether there is one with the index. -/
def setGlobal (index : Nat) (value : Value) : SessionM Bool := fun session =>
  let world := session.world
  .ok (index < world.globals.size)
    { session with world := { world with globals := world.globals.setIfInBounds index value } }

def buildIterator (literal : Literal) : SessionM Ref := do
  match ← build literal with
  | .iterator ref => return ref
  | other => throw (.fault (.notIterable (other.kind (← get).world.store)))

def changeElements (register : Option String) (target : Value)
    (change : Array Value → Array Value) : SessionM Reply := do
  match target with
  | .array _ ref =>
    onStore (StoreM.changeElements ref change)
    reply register target
  | other => throw (.fault (.notIndexAssignable (other.kind (← get).world.store)))

/-- Carries out a run and reports on `shown` globals. -/
def runReply (fuel shown : Nat) (deadline : Deadline) : SessionM Reply := do
  let ending ← run fuel deadline
  let globals ← shownGlobals shown
  let session ← get
  match ending with
  | .completed => return .completed session.isStackEmpty globals session.machine.summary
  | .failed failure => return .failed failure globals

def callReply (fuel : Nat) (register : Option String) (callee : Literal)
    (receiver : Option Literal) (arguments : List Literal) (keywords : List (String × Literal)) :
    SessionM Reply := do
  let registers := (← get).registers
  let callee ← build callee
  let receiver ← match receiver with
    | some literal => some <$> build literal
    | none => pure none
  let arguments ← onStore (Literal.buildList registers arguments)
  let keywords ← onStore (Literal.buildEntries registers keywords)
  let request : Request :=
    { callee, receiver, arguments := arguments.toArray, keywords := .ofList keywords }
  reply register (← call fuel request.values request)

/-- Lists the keys and elements of a value as they are now. -/
def drainReply (value : Value) : SessionM Reply := do
  let store := (← get).world.store
  let sequence ← ofExcept (Sequence.of store value)
  let entries := store.drain sequence
  let elements ← snapshots (entries.map (·.2))
  return .entries ((entries.map fun entry => Snapshot.plain entry.1).zip elements)

/-- Carries out a command. A value that is the answer is kept in `register`, and `shown` globals are
reported after a run. -/
def perform (fuel shown : Nat) (register : Option String) : Command → SessionM Reply
  | .run deadline => runReply fuel shown deadline
  | .abort => do
    modify fun session => { session with world := { session.world with aborting := true } }
    return .truth true
  | .isAborting => return .truth (← get).world.aborting
  | .globals => return .globals (← shownGlobals shown) (← get).world.globals.size
  | .global index => do reply register ((← get).world.globals[index]?.getD .undefined)
  | .setGlobal index value => do return .truth (← setGlobal index (← build value))
  | .call callee receiver arguments keywords =>
    callReply fuel register callee receiver arguments keywords
  | .value value => do reply register (← build value)
  | .forget name => do
    modify fun session => { session with registers := session.registers.erase name }
    return .truth true
  | .get target key => do
    let target ← build target
    let key ← build key
    reply register (← answered fuel [target, key] (← onStore (StoreM.indexGet target key)))
  | .set target key value => do
    let target ← build target
    let key ← build key
    let value ← build value
    let _ ← answered fuel [target, key, value] (← onStore (StoreM.indexSet target key value))
    reply register target
  | .delete target keys => do
    let target ← build target
    let keys ← onStore (Literal.buildList (← get).registers keys)
    onStore (StoreM.indexDelete target keys)
    reply register target
  | .slice target low high => do
    let target ← build target
    let low ← build low
    let high ← build high
    reply register (← onStore (target.slice low high))
  | .binary operator left right => do
    let left ← build left
    let right ← build right
    let result ← onStore (Value.binary operator left right)
    let shown ← snapshot result
    keep register result
    return .described shown (← describe result)
  | .negate value => do
    reply register (← ofExcept ((← build value).negative (← get).world.store))
  | .complement value => do
    reply register (← ofExcept ((← build value).complement (← get).world.store))
  | .equal left right => do
    let left ← build left
    let right ← build right
    return .truth ((← get).world.store.equal left right)
  | .copy value => do reply register (← onStore (StoreM.copy (← build value)))
  | .mapping deep value => do
    match ← onStore (StoreM.mapping? deep (← build value)) with
    | some mapping => reply register (← onStore (StoreM.newMap mapping .writable))
    | none => return .nothing
  | .inspect value => do
    let value ← build value
    let session ← get
    return .inspection (session.world.store.inspect (session.lives [value]) value)
  | .bind callee receiver => do
    let callee ← build callee
    let receiver ← build receiver
    reply register (← onStore (StoreM.bind .strong receiver callee))
  | .iterate value => do reply register (← onStore (StoreM.newIterator (← build value)))
  | .next iterator => do
    return .truth (← onStore (StoreM.iteratorNext (← buildIterator iterator)))
  | .key iterator => do
    let ref ← buildIterator iterator
    reply register ((← get).world.store.cursor ref).key
  | .element iterator => do
    let ref ← buildIterator iterator
    let store := (← get).world.store
    reply register ((store.cursor ref).value store)
  | .drain value => do drainReply (← build value)
  | .values values => do
    return .values (← snapshots (← onStore (Literal.buildList (← get).registers values)))
  | .push target value => do
    let target ← build target
    let value ← build value
    changeElements register target (·.push value)
  | .pop target => do changeElements register (← build target) Array.pop
  | .limits => return .text (← get).program.limits.render
  | .machine => return .text (← get).machine.summary
  | .listing => do
    let session ← get
    return .text (session.program.listing session.world.store)

/-- Carries out a command and replies in any case. -/
def respond (fuel shown : Nat) (register : Option String) (command : Command) (session : Session) :
    Reply × Session :=
  match perform fuel shown register command session with
  | .ok reply session => (reply, session)
  | .error reason session => (.interrupted reason, session)

end Session

end ScriptMachine
