import ScriptMachine.Value
import ScriptMachine.Table
import ScriptMachine.Fault

/-! The store: cells that values refer to. A cell keeps its kind for ever; reading a reference as
another kind finds it empty. -/

namespace ScriptMachine

/-- A function: code, the boxes of its free variables, and whether a native-side call runs it. -/
structure Function where
  code : FunctionCode
  free : Array Ref := #[]
  busy : Bool := false

/-- A declared field or method: its value and tags. -/
structure Entry where
  value : Value := .undefined
  tags : Table Value := {}

/-- A declared property. Either accessor may be missing. -/
structure Property where
  getter : Option Value := none
  setter : Option Value := none
  tags : Table Value := {}

def Property.isEmpty (property : Property) : Bool :=
  property.getter.isNone && property.setter.isNone

/-- A type: what its instances hold, which methods and properties they have, how they are made. -/
structure TypeObject where
  name : String
  tags : Table Value := {}
  constructor : Option Value := none
  fields : Ref
  methods : Ref
  properties : Ref

/-- An instance: its type, the storage of its values and the methods looked up on it so far. -/
structure Object where
  type : Ref
  values : Ref
  methods : Table Value := {}

/-- What an iterator goes through. Lengths and keys are those at its creation. -/
inductive Sequence where
  | nothing
  | elements (storage : Ref) (count : Nat)
  | octets (data : Array UInt8)
  | characters (text : Array Char)
  | entries (storage : Ref) (keys : Array String)

/-- An iterator: a sequence and how many elements have been entered. -/
structure Cursor where
  sequence : Sequence := .nothing
  position : Nat := 0

inductive Cell where
  | array (elements : Array Value)
  | map (entries : Table Value)
  | box (value : Value)
  | function (function : Function)
  | type (type : TypeObject)
  | object (object : Object)
  | entry (entry : Entry)
  | property (property : Property)
  | members (kind : MemberKind) (members : Table Ref)
  | iterator (cursor : Cursor)

/-- Whether a cell can be written over another: it is of the same kind, and no function. -/
def Cell.admits : Cell → Cell → Bool
  | .array _, .array _ | .map _, .map _ | .box _, .box _ | .type _, .type _ | .object _, .object _
  | .entry _, .entry _ | .property _, .property _ | .iterator _, .iterator _ => true
  | .members kind _, .members other _ => kind = other
  | _, _ => false

/-- All cells, and the next identity for values without a cell. -/
structure Store where
  cells : Array Cell := #[]
  nextId : Nat := 0

namespace Store

def set (store : Store) (ref : Ref) (cell : Cell) : Store :=
  { store with cells := store.cells.setIfInBounds ref cell }

/-- Replaces the contents of a cell by others of its kind. Functions are never written. -/
def overwrite (store : Store) (ref : Ref) (cell : Cell) : Store :=
  { store with cells := store.cells.modify ref fun old => if old.admits cell then cell else old }

/-- Changes the elements of an array where they are. -/
def changeElements (store : Store) (ref : Ref) (change : Array Value → Array Value) : Store :=
  { store with cells := store.cells.modify ref fun
      | .array elements => .array (change elements)
      | other => other }

def changeMembers (store : Store) (ref : Ref) (change : Table Ref → Table Ref) : Store :=
  { store with cells := store.cells.modify ref fun
      | .members kind members => .members kind (change members)
      | other => other }

def elements (store : Store) (ref : Ref) : Array Value :=
  match store.cells[ref]? with
  | some (.array elements) => elements
  | _ => #[]

def entries (store : Store) (ref : Ref) : Table Value :=
  match store.cells[ref]? with
  | some (.map entries) => entries
  | _ => {}

def boxed (store : Store) (ref : Ref) : Value :=
  match store.cells[ref]? with
  | some (.box value) => value
  | _ => .undefined

def function (store : Store) (ref : Ref) : Function :=
  match store.cells[ref]? with
  | some (.function function) => function
  | _ => { code := {} }

/-- Whether there is a function that no native-side call runs. -/
def isIdle (store : Store) (ref : Ref) : Bool :=
  match store.cells[ref]? with
  | some (.function function) => !function.busy
  | _ => false

def setBusy (store : Store) (ref : Ref) (busy : Bool) : Store :=
  { store with cells := store.cells.modify ref fun
      | .function function => .function { function with busy }
      | other => other }

def type (store : Store) (ref : Ref) : TypeObject :=
  match store.cells[ref]? with
  | some (.type type) => type
  | _ => { name := "", fields := ref, methods := ref, properties := ref }

def object (store : Store) (ref : Ref) : Object :=
  match store.cells[ref]? with
  | some (.object object) => object
  | _ => { type := ref, values := ref }

def entry (store : Store) (ref : Ref) : Entry :=
  match store.cells[ref]? with
  | some (.entry entry) => entry
  | _ => {}

def property (store : Store) (ref : Ref) : Property :=
  match store.cells[ref]? with
  | some (.property property) => property
  | _ => {}

def members (store : Store) (ref : Ref) : Table Ref :=
  match store.cells[ref]? with
  | some (.members _ members) => members
  | _ => {}

def cursor (store : Store) (ref : Ref) : Cursor :=
  match store.cells[ref]? with
  | some (.iterator cursor) => cursor
  | _ => {}

def typeNameOf (store : Store) (object : Ref) : String :=
  (store.type (store.object object).type).name

def valuesOf (store : Store) (object : Ref) : Table Value :=
  store.entries (store.object object).values

end Store

/-- Computations on the store. What they did before a fault remains done. -/
abbrev StoreM := EStateM Fault Store

namespace StoreM

def alloc (cell : Cell) : StoreM Ref :=
  modifyGet fun store => (store.cells.size, { store with cells := store.cells.push cell })

/-- An identity that no value has yet. -/
def freshId : StoreM Nat :=
  modifyGet fun store => (store.nextId, { store with nextId := store.nextId + 1 })

def write (ref : Ref) (cell : Cell) : StoreM Unit := modify (·.overwrite ref cell)

def changeElements (ref : Ref) (change : Array Value → Array Value) : StoreM Unit :=
  modify (·.changeElements ref change)

def changeMembers (ref : Ref) (change : Table Ref → Table Ref) : StoreM Unit :=
  modify (·.changeMembers ref change)

def read {α : Type} (view : Store → α) : StoreM α := return view (← get)

def newArray (elements : Array Value) (handle : Handle) : StoreM Value :=
  return .array handle (← alloc (.array elements))

def newMap (entries : Table Value) (handle : Handle) : StoreM Value :=
  return .map handle (← alloc (.map entries))

def newError (payload : Value) : StoreM Value :=
  return .error (← freshId) payload

def newBox (value : Value) : StoreM Ref := alloc (.box value)

def newFunction (code : FunctionCode) (free : Array Ref) : StoreM Ref :=
  alloc (.function { code, free })

end StoreM

end ScriptMachine
