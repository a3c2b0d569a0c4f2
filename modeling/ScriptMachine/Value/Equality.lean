import ScriptMachine.Store
import Std.Data.HashSet

/-! Equality of values. Containers are compared by what they hold, everything else with an identity
by that identity. Two containers that are already being compared count as equal, so cyclic
structures compare in finite time. -/

namespace ScriptMachine

namespace Store

/-- The containers that are compared by what they hold. -/
inductive ContainerKind where
  | array
  | map
  | object
  deriving DecidableEq, Hashable

/-- Pairs of containers of one kind that a comparison has entered. -/
abbrev Entered := Std.HashSet (ContainerKind × Ref × Ref)

/-- Whether two containers are one, have been entered together before, or pass `compare` now. What is
assumed of a pair is never taken back, not even once the pair has been left. -/
def enterPair (kind : ContainerKind) (first second : Ref) (compare : StateM Entered Bool) :
    StateM Entered Bool := do
  if first = second then return true
  else if ← modifyGet (·.containsThenInsert (kind, first, second)) then return true
  else compare

def equalLists (equal : Value → Value → StateM Entered Bool) :
    List Value → List Value → StateM Entered Bool
  | [], [] => return true
  | first :: firsts, second :: seconds => do
    if ← equal first second then equalLists equal firsts seconds else return false
  | _, _ => return false

/-- Whether every entry of a list has an equal one in a table. -/
def equalEntries (equal : Value → Value → StateM Entered Bool) (table : Table Value) :
    List (String × Value) → StateM Entered Bool
  | [] => return true
  | (key, value) :: rest =>
    match table.get? key with
    | none => return false
    | some other => do if ← equal value other then equalEntries equal table rest else return false

def equalArrays (equal : Value → Value → StateM Entered Bool) (first second : Array Value) :
    StateM Entered Bool :=
  if first.size = second.size then equalLists equal first.toList second.toList else return false

/-- Whether two tables have equally many entries, and equal ones. The entries of the first one are
visited as listed. -/
def equalTables (equal : Value → Value → StateM Entered Bool) (listed : List (String × Value))
    (first second : Table Value) : StateM Entered Bool :=
  if first.size = second.size then equalEntries equal second listed else return false

/-- The order in which the entries of a map are visited: a rearrangement of them for each storage. -/
abbrev VisitOrder := Ref → List (String × Value) → List (String × Value)

/-- Compares two values, where `equal` compares what they hold. -/
def equalWith (store : Store) (order : VisitOrder) (equal : Value → Value → StateM Entered Bool) :
    Value → Value → StateM Entered Bool
  | .undefined, .undefined | .useDefault, .useDefault => return true
  | .bool a, .bool b => return a == b
  | .int a, .int b => return a == b
  | .float a, .float b => return a == b
  | .char a, .char b => return a == b
  | .string a, .string b => return a == b
  | .bytes a, .bytes b => return a == b
  | .array _ a, .array _ b =>
    enterPair .array a b (equalArrays equal (store.elements a) (store.elements b))
  | .map _ a, .map _ b =>
    enterPair .map a b
      (equalTables equal (order a (store.entries a).entries) (store.entries a) (store.entries b))
  | .object a, .object b =>
    if a = b then return true
    else if (store.object a).type = (store.object b).type then
      enterPair .object a b
        (equalTables equal (order (store.object a).values (store.valuesOf a).entries)
          (store.valuesOf a) (store.valuesOf b))
    else return false
  | .error a _, .error b _ => return a == b
  | .function a, .function b => return a == b
  | .builtin a _, .builtin b _ => return a == b
  | .host a _, .host b _ => return a == b
  | .mapper a _, .mapper b _ => return a == b
  | .bound a .., .bound b .. => return a == b
  | .box a, .box b => return a == b
  | .type a, .type b => return a == b
  | .member kind a, .member other b => return kind == other && a == b
  | .members kind a, .members other b => return kind == other && a == b
  | .iterator a, .iterator b => return a == b
  | _, _ => return false

/-- Compares two values, entering at most `fuel` containers below one another. -/
def equalIn (store : Store) (order : VisitOrder) : Nat → Value → Value → StateM Entered Bool
  | 0 => fun _ _ => return false
  | fuel + 1 => store.equalWith order (store.equalIn order fuel)

/-- Whether two values are equal, where maps are visited in a given order. A comparison enters each
pair of cells at most once for each of the three kinds. -/
def equalVisiting (store : Store) (order : VisitOrder) (first second : Value) : Bool :=
  let pairs := 3 * (store.cells.size * store.cells.size)
  ((store.equalIn order (pairs + 1) first second).run ∅).1

def equal (store : Store) (first second : Value) : Bool :=
  store.equalVisiting (fun _ entries => entries) first second

end Store

end ScriptMachine
