import ScriptMachine.TypeSystem.Members

/-! Types: made from mappings, read and changed by key, and the instances they give rise to. -/

namespace ScriptMachine.StoreM

def blankType (name : String) : StoreM TypeObject := do
  return { name, fields := ← newMembers .field, methods := ← newMembers .method,
           properties := ← newMembers .property }

/-- The table that a value stands for: such a table itself, a mapping loaded into a new one, or a
new one without members for the undefined value. -/
def membersValue (key : String) (kind : MemberKind) (value : Value) : StoreM Ref := do
  match value with
  | .undefined => newMembers kind
  | .map _ ref => membersFrom kind ((← get).entries ref)
  | .members other ref => if other = kind then return ref else refuse
  | _ => refuse
where
  refuse : StoreM Ref :=
    throw (.conversion ("'" ++ key ++ "' isn't map or <" ++ kind.plural ++ ">"))

def constructorValue (value : Value) : StoreM (Option Value) := do
  match value with
  | .undefined => return none
  | value =>
    if value.isCallable then return some value
    throw (.conversion "'new' isn't callable")

/-- The change that assigning a value to a key of a type makes. The value is converted first and may
refer to the type itself. -/
def typeChange (key : String) (value : Value) : StoreM (TypeObject → TypeObject) := do
  match key with
  | "tags" =>
    let tags ← tagsFrom none value
    return fun type => { type with tags }
  | "new" =>
    let constructor ← constructorValue value
    return fun type => { type with constructor }
  | "fields" =>
    let fields ← membersValue key .field value
    return fun type => { type with fields }
  | "methods" =>
    let methods ← membersValue key .method value
    return fun type => { type with methods }
  | "properties" | "props" =>
    let properties ← membersValue key .property value
    return fun type => { type with properties }
  | _ => throw (.invalidIndex key)

def typeName (mapping : Table Value) : StoreM String := do
  match mapping.get? "name" with
  | none | some .undefined => throw .undefinedTypeName
  | some (.string name) => if name.isEmpty then throw .emptyTypeName else return name
  | some other => throw (.invalidArgumentType "name" "string" (other.kind (← get)))

/-- The keys of a type's mapping besides its name, in the order in which they are applied. -/
def typeKeys : List String := ["tags", "new", "fields", "methods", "properties"]

def typeFrom (mapping : Table Value) : StoreM Ref := do
  let blank ← blankType (← typeName mapping)
  let type ← (present mapping typeKeys).foldlM (fun type entry => do
    let change ← typeChange entry.1 entry.2
    return change type) blank
  alloc (.type type)

def typeGet (ref : Ref) (key : String) : StoreM Value := do
  let type := (← get).type ref
  match key with
  | "name" => return .string type.name
  | "tags" => newMap type.tags .writable
  | "new" => return type.constructor.getD .undefined
  | "fields" => return .members .field type.fields
  | "methods" => return .members .method type.methods
  | "props" => return .members .property type.properties
  | "__map__" => newMap (← typeMapping true ref) .writable
  | _ => throw (.invalidIndex key)

/-- The keys of a type that can be assigned; its name is fixed. -/
def assignableKeys : List String := ["tags", "new", "fields", "methods", "props"]

def typeSet (ref : Ref) (key : String) (value : Value) : StoreM Unit := do
  if key ∈ assignableKeys then
    let change ← typeChange key value
    write ref (.type (change ((← get).type ref)))
  else throw (.invalidIndex key)

/-- A new instance of a type, with a deep copy of each field's default. Each default is copied by itself,
so what two of them share is copied twice. -/
def newObject (type : Ref) : StoreM Ref := do
  let fields := (← get).members ((← get).type type).fields
  let values ← fields.mapM fun field => do copy ((← get).entry field).value
  let storage ← alloc (.map values)
  alloc (.object { type, values := storage })

/-- A new instance of a type, with some values in place of their defaults. -/
def newObjectWith (type : Ref) (values : Table Value) : StoreM Ref := do
  let ref ← newObject type
  let storage := ((← get).object ref).values
  write storage (.map (((← get).entries storage).insertAll values.entries))
  return ref

end ScriptMachine.StoreM
