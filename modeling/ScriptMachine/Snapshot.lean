import ScriptMachine.Store
import ScriptMachine.Value.Kind
import Std.Data.HashMap

/-! Snapshots: values and all they hold, as trees. Objects are numbered as they are first met, and
an object met again is named by its number, so shared and cyclic structure shows. -/

namespace ScriptMachine

/-- A tree of what a value holds. -/
inductive Snapshot where
  /-- A value that holds nothing. -/
  | plain (value : Value)
  /-- An object with a number and its parts. -/
  | node (tag : String) (number : Nat) (parts : List (String × Snapshot))
  /-- An object that has been met before. -/
  | again (tag : String) (number : Nat)
  /-- An object too deep to be shown. -/
  | cut (tag : String)
  | list (items : List Snapshot)
  | table (items : List (String × Snapshot))
  | text (text : String)
  | code (bytes : Array UInt8)
  /-- The receiver of a bound method that is gone. -/
  | gone (fault : Fault)

/-- What tells one object from another. -/
inductive Identity where
  | cell (ref : Ref)
  | made (id : Nat)
  deriving DecidableEq, Hashable

namespace Snapshot

abbrev Numbering := Std.HashMap Identity Nat

abbrev NumberM := StateM Numbering

/-- How many levels below its root a snapshot shows. -/
def maxDepth : Nat := 24

/-- An object: its number if it has one, else a new number and its parts, if they may be shown. It is
numbered before its parts are taken, so that a cycle ends at the number. -/
def object (tag : String) (identity : Identity) (shown : Bool)
    (parts : NumberM (List (String × Snapshot))) : NumberM Snapshot := do
  match (← get)[identity]? with
  | some number => return .again tag number
  | none =>
    if shown then
      let number := (← get).size
      modify (·.insert identity number)
      return .node tag number (← parts)
    else return .cut tag

def values (inner : Value → NumberM Snapshot) (items : List Value) : NumberM Snapshot :=
  return .list (← items.mapM inner)

/-- The snapshots of a table's values, in the order of the keys. -/
def entries (inner : Value → NumberM Snapshot) (table : Table Value) : NumberM Snapshot :=
  return .table (← table.entries.mapM fun entry => return (entry.1, ← inner entry.2))

def arrayTag : Handle → String
  | .writable => "array"
  | .frozen => "iarray"

def mapTag : Handle → String
  | .writable => "map"
  | .frozen => "imap"

def memberParts (store : Store) (inner : Value → NumberM Snapshot) (kind : MemberKind) (ref : Ref) :
    NumberM (List (String × Snapshot)) := do
  match kind with
  | .property =>
    let property := store.property ref
    return [("get", ← inner (property.getter.getD .undefined)),
      ("set", ← inner (property.setter.getD .undefined)), ("tags", ← entries inner property.tags)]
  | _ =>
    let entry := store.entry ref
    return [("v", ← inner entry.value), ("tags", ← entries inner entry.tags)]

def typeParts (store : Store) (inner : Value → NumberM Snapshot) (ref : Ref) :
    NumberM (List (String × Snapshot)) := do
  let type := store.type ref
  return [("name", .text type.name), ("tags", ← entries inner type.tags),
    ("new", ← inner (type.constructor.getD .undefined)),
    ("fields", ← inner (.members .field type.fields)),
    ("methods", ← inner (.members .method type.methods)),
    ("props", ← inner (.members .property type.properties))]

def receiver (inner : Value → NumberM Snapshot) (lives : Ref → Bool) (hold : Hold) (value : Value) :
    NumberM Snapshot :=
  match Value.heldReceiver? lives hold value with
  | some value => inner value
  | none => return .gone .receiverGone

/-- The snapshot of a value. `levels` is how many levels of objects may still be shown, and `lives`
says which instances still exist. -/
def take (store : Store) (lives : Ref → Bool) (levels : Nat) (value : Value) : NumberM Snapshot :=
  let inner (value : Value) : NumberM Snapshot :=
    match levels with
    | 0 => return .plain .undefined
    | levels + 1 => take store lives levels value
  let shown := levels ≠ 0
  match value with
  | .array handle ref => object (arrayTag handle) (.cell ref) shown do
      return [("items", ← values inner (store.elements ref).toList)]
  | .map handle ref => object (mapTag handle) (.cell ref) shown do
      return [("items", ← entries inner (store.entries ref))]
  | .error id payload => object "error" (.made id) shown do
      return [("v", ← inner payload)]
  | .function ref => object "func" (.cell ref) shown do
      let function := store.function ref
      return [("code", .code function.code.instructions),
        ("free", ← values inner (function.free.toList.map .box))]
  | .box ref => object "box" (.cell ref) shown do
      return [("v", ← inner (store.boxed ref))]
  | .bound id hold callee held => object "bound" (.made id) shown do
      return [("func", ← inner callee), ("this", ← receiver inner lives hold held)]
  | .type ref => object "type" (.cell ref) shown (typeParts store inner ref)
  | .object ref => object "instance" (.cell ref) shown do
      return [("type", .text (store.typeNameOf ref)), ("values", ← entries inner (store.valuesOf ref))]
  | .member kind ref => object kind.singular (.cell ref) shown (memberParts store inner kind ref)
  | .members kind ref => object kind.plural (.cell ref) shown do
      return [("items", ← entries inner ((store.members ref).mapValues (.member kind)))]
  | .iterator ref => object "iterator" (.cell ref) shown (return [])
  | value => return .plain value
termination_by structural levels

end Snapshot

namespace Store

/-- The snapshots of several values, with one numbering for all. -/
def snapshots (store : Store) (lives : Ref → Bool) (values : List Value) : List Snapshot :=
  ((values.mapM (Snapshot.take store lives (Snapshot.maxDepth + 1))).run ∅).1

def snapshot (store : Store) (lives : Ref → Bool) (value : Value) : Snapshot :=
  ((Snapshot.take store lives (Snapshot.maxDepth + 1) value).run ∅).1

end Store

end ScriptMachine
