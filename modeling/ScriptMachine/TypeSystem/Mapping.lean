import ScriptMachine.Value.Kind
import ScriptMachine.Value.Copy

/-! The mapping form of maps, instances and the objects of the type system: a table that says what
they hold. A deep mapping shares no container with its subject. -/

namespace ScriptMachine.StoreM

/-- A table itself, or the deep copy of what it holds. -/
def tableForm (deep : Bool) (table : Table Value) : StoreM (Table Value) :=
  if deep then copyTable table else return table

def valueForm (deep : Bool) (value : Value) : StoreM Value :=
  if deep then copy value else return value

/-- Adds tags to a mapping as a map of their own, unless there are none. -/
def withTags (deep : Bool) (tags : Table Value) (mapping : Table Value) : StoreM (Table Value) := do
  if tags.isEmpty then return mapping
  return mapping.insert "tags" (← newMap (← tableForm deep tags) .writable)

def entryMapping (deep : Bool) (entry : Entry) : StoreM (Table Value) := do
  let value ← valueForm deep entry.value
  withTags deep entry.tags (Table.empty.insert "value" value)

def withAccessor (deep : Bool) (key : String) (accessor : Option Value) (mapping : Table Value) :
    StoreM (Table Value) :=
  match accessor with
  | some function => return mapping.insert key (← valueForm deep function)
  | none => return mapping

def propertyMapping (deep : Bool) (property : Property) : StoreM (Table Value) := do
  let mapping ← withAccessor deep "get" property.getter {}
  let mapping ← withAccessor deep "set" property.setter mapping
  withTags deep property.tags mapping

def memberMapping (deep : Bool) (kind : MemberKind) (ref : Ref) : StoreM (Table Value) := do
  match kind with
  | .property => propertyMapping deep ((← get).property ref)
  | _ => entryMapping deep ((← get).entry ref)

/-- The mapping of a table of members: the members themselves, or deep mappings of them. -/
def membersMapping (deep : Bool) (kind : MemberKind) (ref : Ref) : StoreM (Table Value) := do
  ((← get).members ref).mapM fun member =>
    if deep then do newMap (← memberMapping true kind member) .writable
    else return .member kind member

/-- The mapping of a type. Its constructor is never copied. -/
def typeMapping (deep : Bool) (ref : Ref) : StoreM (Table Value) := do
  let type := (← get).type ref
  let mapping := Table.empty.insert "name" (.string type.name)
  let mapping := match type.constructor with
    | some constructor => mapping.insert "new" constructor
    | none => mapping
  let mapping ← withTags deep type.tags mapping
  let methods ← newMap (← membersMapping deep .method type.methods) .writable
  let fields ← newMap (← membersMapping deep .field type.fields) .writable
  let properties ← newMap (← membersMapping deep .property type.properties) .writable
  return ((mapping.insert "methods" methods).insert "fields" fields).insert "properties" properties

def mapping? (deep : Bool) : Value → StoreM (Option (Table Value))
  | .map _ ref => do return some (← tableForm deep ((← get).entries ref))
  | .object ref => do return some (← tableForm deep ((← get).valuesOf ref))
  | .type ref => some <$> typeMapping deep ref
  | .member kind ref => some <$> memberMapping deep kind ref
  | .members kind ref => some <$> membersMapping deep kind ref
  | _ => return none

def newMapper (subject : Value) : StoreM Value := return .mapper (← freshId) subject

/-- Fails when a value is a type one of whose tables is held for writing. -/
def refuseHeld (held : Option Ref) (value : Value) : StoreM Unit := do
  match held, value with
  | some table, .type ref =>
    let type := (← get).type ref
    if table = type.fields ∨ table = type.methods ∨ table = type.properties then throw .cellHeld
  | _, _ => return ()

/-- The tags that a value stands for: none when undefined, else its shallow mapping. `held` is the
table being written meanwhile. -/
def tagsFrom (held : Option Ref) (value : Value) : StoreM (Table Value) := do
  match value with
  | .undefined => return {}
  | value =>
    refuseHeld held value
    match ← mapping? false value with
    | some tags => return tags
    | none => throw (.conversion "value of \"tags\" isn't convertible to map")

/-- Binds a callable to a receiver. Each binding of a function has a copy of it, with a busy flag of
its own. -/
def bind (hold : Hold) (receiver : Value) (value : Value) : StoreM Value := do
  match value with
  | .bound _ _ callee _ => return .bound (← freshId) hold callee receiver
  | .function ref =>
    let source := (← get).function ref
    let copied ← newFunction source.code source.free
    return .bound (← freshId) hold (.function copied) receiver
  | other =>
    if other.isMethodConvertible then return .bound (← freshId) hold other receiver
    else throw (.notAMethod (other.kind (← get)))

end ScriptMachine.StoreM
