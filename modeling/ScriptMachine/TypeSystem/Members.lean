import ScriptMachine.TypeSystem.Mapping

/-! Fields, methods and properties, and the tables that hold them: how they are declared, read,
changed and loaded from mappings. -/

namespace ScriptMachine.StoreM

def methodValue (value : Value) : StoreM Value := do
  if value.isMethodConvertible then return value
  throw (.notAMethod (value.kind (← get)))

/-- The value that a field or method stores. Anything can be a field. -/
def declaredValue (kind : MemberKind) (value : Value) : StoreM Value :=
  match kind with
  | .method => methodValue value
  | _ => return value

/-- An accessor; the undefined value takes it away. -/
def accessor (value : Value) : StoreM (Option Value) :=
  match value with
  | .undefined => return none
  | value => return some (← methodValue value)

def tagsOf (held : Option Ref) (mapping : Table Value) : StoreM (Table Value) :=
  match mapping.get? "tags" with
  | some tags => tagsFrom held tags
  | none => return {}

def entryFrom (held : Option Ref) (kind : MemberKind) (mapping : Table Value) : StoreM Entry := do
  let value ← declaredValue kind ((mapping.get? "value").getD .undefined)
  return { value, tags := ← tagsOf held mapping }

def propertyWith (held : Option Ref) (property : Property) (key : String) (value : Value) :
    StoreM Property := do
  match key with
  | "get" => return { property with getter := ← accessor value }
  | "set" => return { property with setter := ← accessor value }
  | "tags" => return { property with tags := ← tagsFrom held value }
  | _ => throw (.invalidIndex key)

/-- The keys of a property's mapping, in the order in which they are applied. -/
def propertyKeys : List String := ["get", "set", "tags"]

def present (mapping : Table Value) (keys : List String) : List (String × Value) :=
  keys.filterMap fun key => (mapping.get? key).map (key, ·)

def propertyFrom (held : Option Ref) (mapping : Table Value) : StoreM Property :=
  (present mapping propertyKeys).foldlM (fun property entry =>
    propertyWith held property entry.1 entry.2) {}

def entryGet (ref : Ref) (key : String) : StoreM Value := do
  let entry := (← get).entry ref
  match key with
  | "value" => return entry.value
  | "tags" => newMap entry.tags .writable
  | _ => throw (.invalidIndex key)

def propertyGet (ref : Ref) (key : String) : StoreM Value := do
  let property := (← get).property ref
  match key with
  | "get" => return property.getter.getD .undefined
  | "set" => return property.setter.getD .undefined
  | "tags" => newMap property.tags .writable
  | _ => throw (.invalidIndex key)

def memberGet (kind : MemberKind) (ref : Ref) (key : String) : StoreM Value :=
  match kind with
  | .property => propertyGet ref key
  | _ => entryGet ref key

def entrySet (kind : MemberKind) (ref : Ref) (key : String) (value : Value) : StoreM Unit := do
  match key with
  | "value" =>
    let value ← declaredValue kind value
    write ref (.entry { (← get).entry ref with value })
  | "tags" =>
    let tags ← tagsFrom none value
    write ref (.entry { (← get).entry ref with tags })
  | _ => throw (.invalidIndex key)

def propertySet (ref : Ref) (key : String) (value : Value) : StoreM Unit := do
  let property ← propertyWith none ((← get).property ref) key value
  write ref (.property property)

def memberSet (kind : MemberKind) (ref : Ref) (key : String) (value : Value) : StoreM Unit :=
  match kind with
  | .property => propertySet ref key value
  | _ => entrySet kind ref key value

/-- Loads a member from a mapping, key after key. A field or method loses the keys that the mapping
lacks, a property keeps them. The value is written before the tags are converted, and stays if these are
refused. -/
def loadMember (kind : MemberKind) (ref : Ref) (mapping : Table Value) : StoreM Unit := do
  match kind with
  | .property =>
    (present mapping propertyKeys).forM fun entry => propertySet ref entry.1 entry.2
  | _ =>
    entrySet kind ref "value" ((mapping.get? "value").getD .undefined)
    let tags ← tagsOf none mapping
    write ref (.entry { (← get).entry ref with tags })

def declareField (held : Option Ref) (value : Value) : StoreM Ref := do
  match value with
  | .member .field ref => return ref
  | .map _ ref => alloc (.entry (← entryFrom held .field ((← get).entries ref)))
  | .useDefault => alloc (.entry {})
  | other => alloc (.entry { value := other })

def declareMethod (held : Option Ref) (value : Value) : StoreM Ref := do
  match value with
  | .member .method ref => return ref
  | .map _ ref => alloc (.entry (← entryFrom held .method ((← get).entries ref)))
  | other => alloc (.entry { value := ← methodValue other })

inductive PropertyUpdate where
  /-- Gives the named property an accessor, or takes it away. -/
  | accessor (name : String) (isSetter : Bool) (function : Option Value)
  /-- Stores a property, or removes it. -/
  | replace (name : String) (property : Option Ref)

/-- The text after a given start, unless nothing follows it. -/
def after? (start key : String) : Option String :=
  if key.startsWith start && key.length > start.length then
    some (String.ofList (key.toList.drop start.length))
  else none

/-- A key that names one accessor of a property: whether it is the setter, and the property. -/
def accessorKey? (key : String) : Option (Bool × String) :=
  match after? "get_" key with
  | some name => some (false, name)
  | none => (after? "set_" key).map (true, ·)

/-- The change that assigning a value to a key of a property table makes. A mapping without
accessors removes the property. -/
def propertyUpdate (held : Option Ref) (key : String) (value : Value) : StoreM PropertyUpdate := do
  match accessorKey? key with
  | some (isSetter, name) => return .accessor name isSetter (← accessor value)
  | none =>
    match value with
    | .undefined => return .replace key none
    | .map _ ref =>
      let property ← propertyFrom held ((← get).entries ref)
      if property.isEmpty then return .replace key none
      return .replace key (some (← alloc (.property property)))
    | .member .property ref => return .replace key (some ref)
    | other => throw (.invalidIndexValueType (other.kind (← get)))

def insertMember (table : Ref) (key : String) (member : Ref) : StoreM Unit :=
  changeMembers table (·.insert key member)

def eraseMember (table : Ref) (key : String) : StoreM Unit :=
  changeMembers table (·.erase key)

/-- The property of a name, a new one without accessors where there is none. -/
def propertyNamed (table : Ref) (name : String) : StoreM Ref := do
  match ((← get).members table).get? name with
  | some ref => return ref
  | none =>
    let ref ← alloc (.property {})
    insertMember table name ref
    return ref

/-- Carries out a change. A property left without accessors is removed. An accessor is changed in the
property itself, for every table that lists it. -/
def applyUpdate (table : Ref) : PropertyUpdate → StoreM Unit
  | .accessor name isSetter function => do
    let ref ← propertyNamed table name
    let property := (← get).property ref
    let property :=
      if isSetter then { property with setter := function } else { property with getter := function }
    write ref (.property property)
    if property.isEmpty then eraseMember table name
  | .replace name (some ref) => insertMember table name ref
  | .replace name none => eraseMember table name

/-- Declares a member of a table. Its key is not empty. -/
def declare (held : Option Ref) (kind : MemberKind) (table : Ref) (key : String) (value : Value) :
    StoreM Unit := do
  if key.isEmpty then throw (.invalidIndex "")
  match kind with
  | .field => insertMember table key (← declareField held value)
  | .method => insertMember table key (← declareMethod held value)
  | .property => applyUpdate table (← propertyUpdate held key value)

def declareAll (held : Option Ref) (kind : MemberKind) (table : Ref) :
    List (String × Value) → StoreM Unit
  | [] => return ()
  | (key, value) :: rest => do
    declare held kind table key value
    declareAll held kind table rest

def newMembers (kind : MemberKind) : StoreM Ref := alloc (.members kind {})

def membersFrom (kind : MemberKind) (mapping : Table Value) : StoreM Ref := do
  let table ← newMembers kind
  declareAll none kind table mapping.entries
  return table

end ScriptMachine.StoreM
