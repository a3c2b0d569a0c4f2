import ScriptMachine.Index
import ScriptMachine.Iteration
import ScriptMachine.Limits

/-! The builtins and the order in which code names them. Keyword arguments that a builder of members
does not know become tags. -/

namespace ScriptMachine

/-- What a native callable is given. -/
structure CallContext where
  arguments : Array Value
  keywords : Table Value
  receiver : Option Value

namespace CallContext

/-- A positional argument, undefined when absent. -/
def argument (context : CallContext) (position : Nat) : Value :=
  context.arguments[position]?.getD .undefined

/-- A keyword argument, undefined when absent. -/
def keyword (context : CallContext) (name : String) : Value :=
  (context.keywords.get? name).getD .undefined

def hasCount (context : CallContext) (least most : Nat) : Bool :=
  least ≤ context.arguments.size && context.arguments.size ≤ most

def hasOnly (context : CallContext) (allowed : List String) : Bool :=
  context.keywords.keys.all (· ∈ allowed)

def values (context : CallContext) : List Value :=
  context.arguments.toList ++ context.keywords.values ++ context.receiver.toList

end CallContext

namespace Builtin

def requireCount (context : CallContext) (least most : Nat) : StoreM Unit :=
  if context.hasCount least most then return () else throw .wrongArgumentCount

def requireOnly (context : CallContext) (allowed : List String) : StoreM Unit :=
  if context.hasOnly allowed then return () else throw .unexpectedKeywords

def intArgument (context : CallContext) (position : Nat) (name : String) : StoreM Int64 := do
  match context.argument position with
  | .int i => return i
  | other => throw (.invalidArgumentType name "int" (other.kind (← get)))

/-- How far two numbers are apart. That may be more than the largest signed number. -/
def distance (start stop : Int64) : UInt64 :=
  if start ≤ stop then stop.toUInt64 - start.toUInt64 else start.toUInt64 - stop.toUInt64

/-- How many numbers a range has: the distance of its ends in steps, rounded up. -/
def rangeCount (start stop step : Int64) : UInt64 :=
  let whole := distance start stop / step.toUInt64
  if distance start stop % step.toUInt64 = 0 then whole else whole + 1

def rangeStep (start stop step current : Int64) : Int64 :=
  if start ≤ stop then current + step else current - step

/-- Adds `count` numbers, each one step after the other. The one after the last, which is not added, may
have wrapped around. -/
def addNumbers (advance : Int64 → Int64) : Nat → Int64 → Array Value → Array Value
  | 0, _, numbers => numbers
  | count + 1, current, numbers =>
    addNumbers advance count (advance current) (numbers.push (.int current))

def rangeNumbers (start stop step : Int64) : Array Value :=
  addNumbers (rangeStep start stop step) (rangeCount start stop step).toNat start #[]

/-- A range of integers; the step is one unless given. -/
def runRange (context : CallContext) : StoreM Value := do
  requireCount context 2 3
  requireOnly context []
  let start ← intArgument context 0 "start"
  let stop ← intArgument context 1 "stop"
  let step ← if context.arguments.size = 3 then intArgument context 2 "step" else pure 1
  if step ≤ 0 then throw .invalidRangeStep
  if (rangeCount start stop step).toNat > maxArraySize then throw .arrayLimit
  StoreM.newArray (rangeNumbers start stop step) .writable

/-- The key that a positional argument is put under. A constructor can only come right after the name. -/
def typeArgumentKey? (position : Nat) : Value → Option String
  | .members .field _ => some "fields"
  | .members .method _ => some "methods"
  | .members .property _ => some "properties"
  | value => if position = 1 && value.isCallable then some "new" else none

def typeArguments (position : Nat) (mapping : Table Value) : List Value → StoreM (Table Value)
  | [] => return mapping
  | value :: rest => do
    match typeArgumentKey? position value with
    | some key => typeArguments (position + 1) (mapping.insert key value) rest
    | none =>
      throw (.invalidArgumentType ("arg #" ++ toString position) "fields|methods|properties"
        (value.kind (← get)))

/-- The mapping of the type that a call describes, by one map or by a name and tables. -/
def typeMappingOf (context : CallContext) : StoreM (Table Value) := do
  match context.arguments.toList with
  | [] => throw .wrongArgumentCount
  | .map _ ref :: _ =>
    requireCount context 1 1
    requireOnly context []
    return (← get).entries ref
  | .string name :: rest =>
    requireOnly context ["new", "fields", "methods", "properties", "tags"]
    let mapping ← typeArguments 1 (Table.empty.insert "name" (.string name)) rest
    return mapping.insertAll context.keywords.entries
  | other :: _ => throw (.invalidArgumentType "arg #0" "string|map" (other.kind (← get)))

def runTypeOf (context : CallContext) : StoreM Value := do
  requireCount context 1 1
  match context.argument 0 with
  | .object ref => return .type ((← get).object ref).type
  | other => throw (.invalidArgumentType "arg #0" "instance" (other.kind (← get)))

/-- The entries of the only positional argument, a map; none without one. -/
def positionalEntries (context : CallContext) : StoreM (List (String × Value)) := do
  match context.arguments.toList with
  | [] => return []
  | .map _ ref :: _ => return ((← get).entries ref).entries
  | other :: _ => throw (.invalidArgumentType "arg #0" "map" (other.kind (← get)))

/-- The field that a keyword declares. A map is a default like any other value here. -/
def keywordField (_ : String) (value : Value) : StoreM Ref :=
  match value with
  | .member .field ref => return ref
  | .useDefault => StoreM.alloc (.entry {})
  | other => StoreM.alloc (.entry { value := other })

def keywordMethod (name : String) (value : Value) : StoreM Ref := do
  match value with
  | .member .method ref => return ref
  | value =>
    if value.isCallable then StoreM.alloc (.entry { value := ← StoreM.methodValue value })
    else throw (.conversion ("method " ++ Text.quoted name ++ ": value isn't callable"))

def keywordProperty (name : String) (value : Value) : StoreM Ref := do
  match value with
  | .member .property ref => return ref
  | .map _ ref => StoreM.alloc (.property (← StoreM.propertyFrom none ((← get).entries ref)))
  | _ => throw (.conversion ("bad property " ++ Text.quoted name ++ " value type"))

def keywordMember (kind : MemberKind) : String → Value → StoreM Ref :=
  match kind with
  | .field => keywordField
  | .method => keywordMethod
  | .property => keywordProperty

/-- Declares members by keyword, in the order of their names. -/
def declareKeywords (kind : MemberKind) (table : Ref) : List (String × Value) → StoreM Unit
  | [] => return ()
  | (name, value) :: rest => do
    StoreM.insertMember table name (← keywordMember kind name value)
    declareKeywords kind table rest

def runMembers (kind : MemberKind) (context : CallContext) : StoreM Value := do
  requireCount context 0 1
  let entries ← positionalEntries context
  let table ← StoreM.newMembers kind
  StoreM.declareAll none kind table entries
  declareKeywords kind table context.keywords.entries
  return .members kind table

/-- A field or a method, with keywords as its tags. -/
def runEntry (kind : MemberKind) (context : CallContext) : StoreM Value := do
  requireCount context 1 1
  let value ← StoreM.declaredValue kind (context.argument 0)
  return .member kind (← StoreM.alloc (.entry { value, tags := context.keywords }))

/-- A property, from a getter and a setter or from keywords. -/
def runProperty (context : CallContext) : StoreM Value := do
  let (getter, setter, tags) ← match context.arguments.toList with
    | [] => pure (context.keyword "get", context.keyword "set",
        (context.keywords.erase "get").erase "set")
    | [getter, setter] => pure (getter, setter, context.keywords)
    | _ => throw .wrongArgumentCount
  let getter ← StoreM.accessor getter
  let setter ← StoreM.accessor setter
  return .member .property (← StoreM.alloc (.property { getter, setter, tags }))

/-- The elements of the receiver that want a receiver themselves. -/
def runGetMethods (context : CallContext) : StoreM Value := do
  requireCount context 0 0
  let store ← get
  match Sequence.of store (context.receiver.getD .undefined) with
  | .ok sequence =>
    let elements := (store.drain sequence).map (·.2)
    StoreM.newArray (elements.filter (·.isMethod store)).toArray .writable
  | .error fault => throw fault

def run (builtin : Builtin) (context : CallContext) : StoreM Value :=
  match builtin with
  | copy => do
    requireCount context 1 1
    requireOnly context []
    StoreM.copy (context.argument 0)
  | range => runRange context
  | delete => do
    if context.arguments.size < 2 then throw .wrongArgumentCount
    requireOnly context []
    StoreM.indexDelete (context.argument 0) (context.arguments.toList.drop 1)
    return .undefined
  | type => do return .type (← StoreM.typeFrom (← typeMappingOf context))
  | typeOf => runTypeOf context
  | field => runEntry .field context
  | fields => runMembers .field context
  | method => runEntry .method context
  | methods => runMembers .method context
  | property => runProperty context
  | properties => runMembers .property context
  | getMethods => runGetMethods context

/-- The builtins in the order of their indices. Only the last one takes a receiver. -/
def standard : List (RegistryEntry Builtin) := [
  ⟨"copy", copy, false⟩, ⟨"range", range, false⟩, ⟨"delete", delete, false⟩,
  ⟨"type", type, false⟩, ⟨"typeof", typeOf, false⟩,
  ⟨"field", field, false⟩, ⟨"fields", fields, false⟩,
  ⟨"method", method, false⟩, ⟨"methods", methods, false⟩,
  ⟨"property", property, false⟩, ⟨"properties", properties, false⟩,
  ⟨"get_methods", getMethods, true⟩]

def registry : Registry Builtin := (({} : Registry Builtin).registerAll standard).1

end Builtin

def newMapping (deep : Bool) (subject : Value) : StoreM Value := do
  match ← StoreM.mapping? deep subject with
  | some mapping => StoreM.newMap mapping .writable
  | none => throw (.conversion (subject.kind (← get) ++ " isn't convertible to map"))

/-- Answers a call for the mapping of a value: deep when the only argument is truthy. -/
def runMapper (subject : Value) (context : CallContext) : StoreM Value := do
  let deep ← match context.arguments.toList with
    | [] => pure false
    | [flag] => pure (!flag.isFalsy (← get))
    | _ => throw .wrongArgumentCount
  newMapping deep subject

end ScriptMachine
