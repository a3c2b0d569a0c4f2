import ScriptMachine.TypeSystem.Types
import ScriptMachine.Store.Reach
import ScriptMachine.Value.Display
import ScriptMachine.Text.Characters

/-! Reading, changing and deleting what a value holds under a key. Where a property is involved the
answer is left to one of its accessors, which then has to be called. -/

namespace ScriptMachine

/-- A call that native code asks for: with a receiver, the callee is called as its method. -/
structure Request where
  callee : Value
  receiver : Option Value := none
  arguments : Array Value := #[]
  keywords : Table Value := {}

def Request.values (request : Request) : List Value :=
  request.callee :: (request.receiver.toList ++ request.arguments.toList ++ request.keywords.values)

/-- An answer that is there, or the call of a property's accessor that will give it. -/
inductive Answer where
  | value (value : Value)
  | call (property : Ref) (request : Request)

namespace StoreM

def intIndex (index : Value) : StoreM Int64 := do
  match index.int? with
  | some i => return i
  | none => throw (.invalidIndexType (index.kind (← get)))

def textIndex (index : Value) : StoreM String := do
  match index.text? with
  | some key => return key
  | none => throw (.invalidIndexType (index.kind (← get)))

/-- The key of a map: the text of any value but undefined. -/
def mapIndex (index : Value) : StoreM String := do
  match (← get).keyText? index with
  | some key => return key
  | none => throw (.invalidIndexType (index.kind (← get)))

def position? (index : Int64) (size : Nat) : Option (Fin size) :=
  if inside : 0 ≤ index.toInt ∧ index.toInt.toNat < size then some ⟨index.toInt.toNat, inside.2⟩
  else none

/-- A member of an instance: its storage, its type, a property, a stored value, a method. A method is bound
weakly, and kept for the next look. Binding may add cells, so the instance is read again for that. -/
def objectGet (ref : Ref) (name : String) : StoreM Answer := do
  let store ← get
  let object := store.object ref
  let type := store.type object.type
  if name = mapKey then return .value (.map .writable object.values)
  if name = "__type__" then return .value (.type object.type)
  match (store.members type.properties).get? name with
  | some property =>
    match (store.property property).getter with
    | some getter => return .call property { callee := getter, receiver := some (.object ref) }
    | none => return .value .undefined
  | none =>
    match (store.entries object.values).get? name, object.methods.get? name,
        (store.members type.methods).get? name with
    | some value, _, _ => return .value value
    | none, some bound, _ => return .value bound
    | none, none, some method =>
      let bound ← bind .weak (.object ref) (store.entry method).value
      let object := (← get).object ref
      write ref (.object { object with methods := object.methods.insert name bound })
      return .value bound
    | none, none, none => return .value .undefined

/-- Changes a member of an instance: through a property's setter, or in its storage. -/
def objectSet (ref : Ref) (name : String) (value : Value) : StoreM Answer := do
  let store ← get
  let object := store.object ref
  let type := store.type object.type
  match (store.members type.properties).get? name with
  | some property =>
    match (store.property property).setter with
    | some setter =>
      return .call property
        { callee := setter, receiver := some (.object ref), arguments := #[value] }
    | none => throw (.readOnlyProperty name)
  | none =>
    write object.values (.map ((store.entries object.values).insert name value))
    return .value .undefined

def indexGet (target index : Value) : StoreM Answer := do
  match target with
  | .undefined | .useDefault => return .value .undefined
  | .array _ ref =>
    let i ← intIndex index
    let elements := (← get).elements ref
    return .value ((position? i elements.size).map (elements[·]) |>.getD .undefined)
  | .string s =>
    let i ← intIndex index
    return .value ((position? i s.length).map (.char <| Text.charAt s ·) |>.getD .undefined)
  | .bytes data =>
    let i ← intIndex index
    return .value ((position? i data.size).map
      (fun position => .int (Int64.ofNat data[position].toNat)) |>.getD .undefined)
  | .map _ ref =>
    let key ← mapIndex index
    return .value ((((← get).entries ref).get? key).getD .undefined)
  | .error _ payload =>
    if index.text? = some "value" then return .value payload else throw .invalidIndexOnError
  | .object ref => objectGet ref (← textIndex index)
  | .type ref => .value <$> typeGet ref (← textIndex index)
  | .member kind ref =>
    let key ← textIndex index
    if key = mapKey then .value <$> newMapper target else .value <$> memberGet kind ref key
  | .members kind ref =>
    let key ← textIndex index
    if key = mapKey then .value <$> newMapper target
    else return .value (((← get).members ref).get? key |>.map (.member kind) |>.getD .undefined)
  | other => throw (.notIndexable (other.kind (← get)))

/-- The deep mapping of a value from which a container is reloaded. -/
def reloadMapping (value : Value) : StoreM (Table Value) := do
  match ← mapping? true value with
  | some mapping => return mapping
  | none => throw (.invalidIndexValueType (value.kind (← get)))

/-- Assigns under an index. A table is held while it is reloaded, for tags may be asked of a type that owns
it. -/
def indexSet (target index value : Value) : StoreM Answer := do
  match target with
  | .array .writable ref =>
    let i ← intIndex index
    match position? i ((← get).elements ref).size with
    | some position =>
      changeElements ref (·.setIfInBounds position value)
      return .value .undefined
    | none => throw .indexOutOfBounds
  | .map .writable ref =>
    let key ← mapIndex index
    write ref (.map (((← get).entries ref).insert key value))
    return .value .undefined
  | .object ref => objectSet ref (← textIndex index) value
  | .type ref =>
    typeSet ref (← textIndex index) value
    return .value .undefined
  | .member kind ref =>
    let key ← textIndex index
    if key = mapKey then loadMember kind ref (← reloadMapping value)
    else memberSet kind ref key value
    return .value .undefined
  | .members kind ref =>
    let key ← textIndex index
    if key = mapKey then declareAll (some ref) kind ref (← reloadMapping value).entries
    else declare none kind ref key value
    return .value .undefined
  | other => throw (.notIndexAssignable (other.kind (← get)))

/-- Deletes keys of a map one after the other. The map is held meanwhile: a key whose text shows the
map itself cannot be read. -/
def deleteFromMap (ref : Ref) : List Value → StoreM Unit
  | [] => return ()
  | index :: rest => do
    if (← get).shows index ref then throw .cellHeld
    let key ← mapIndex index
    write ref (.map (((← get).entries ref).erase key))
    deleteFromMap ref rest

def deleteFromMembers (ref : Ref) : List Value → StoreM Unit
  | [] => return ()
  | index :: rest => do
    eraseMember ref (← textIndex index)
    deleteFromMembers ref rest

def indexDelete (target : Value) (keys : List Value) : StoreM Unit := do
  match target with
  | .map .writable ref => deleteFromMap ref keys
  | .members _ ref => deleteFromMembers ref keys
  | other => throw (.notIndexDeletable (other.kind (← get)))

end StoreM

end ScriptMachine
