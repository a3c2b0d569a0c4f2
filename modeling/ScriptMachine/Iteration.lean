import ScriptMachine.Value.Kind

/-! Iterators. One stands before the first element until it is advanced, and what it shows is read
off the storage at that moment. -/

namespace ScriptMachine

namespace Sequence

def count : Sequence → Nat
  | nothing => 0
  | elements _ count => count
  | octets data => data.size
  | characters text => text.size
  | entries _ keys => keys.size

def of (store : Store) : Value → Except Fault Sequence
  | .undefined | .useDefault => .ok nothing
  | .array _ ref => .ok (elements ref (store.elements ref).size)
  | .bytes data => .ok (octets data)
  | .string s => .ok (characters s.toList.toArray)
  | .map _ ref => .ok (entries ref (store.entries ref).keys.toArray)
  | .object ref => .ok (entries (store.object ref).values (store.valuesOf ref).keys.toArray)
  | other => .error (.notIterable (other.kind store))

def keyAt : (sequence : Sequence) → Fin sequence.count → Value
  | entries _ keys, ⟨position, (inside : position < keys.size)⟩ => .string keys[position]
  | _, position => .int (Int64.ofNat position)

/-- The element at a position; undefined when it is gone. -/
def valueAt (store : Store) : (sequence : Sequence) → Fin sequence.count → Value
  | nothing, _ => .undefined
  | elements storage _, position => (store.elements storage)[position.val]?.getD .undefined
  | octets data, ⟨position, (inside : position < data.size)⟩ =>
    .int (Int64.ofNat data[position].toNat)
  | characters text, ⟨position, (inside : position < text.size)⟩ => .char text[position]
  | entries storage keys, ⟨position, (inside : position < keys.size)⟩ =>
    ((store.entries storage).get? keys[position]).getD .undefined

end Sequence

namespace Cursor

def start (sequence : Sequence) : Cursor := { sequence }

/-- The iterator one element further. Past the last element it stays. -/
def advance (cursor : Cursor) : Cursor :=
  if cursor.position ≤ cursor.sequence.count then
    { cursor with position := cursor.position + 1 }
  else cursor

def current? (cursor : Cursor) : Option (Fin cursor.sequence.count) :=
  if inside : 0 < cursor.position ∧ cursor.position ≤ cursor.sequence.count then
    some ⟨cursor.position - 1, by omega⟩
  else none

def inside (cursor : Cursor) : Bool := cursor.position ≤ cursor.sequence.count

def key (cursor : Cursor) : Value :=
  match cursor.current? with
  | some position => cursor.sequence.keyAt position
  | none => .undefined

/-- The element the iterator stands on, as it is now. -/
def value (store : Store) (cursor : Cursor) : Value :=
  match cursor.current? with
  | some position => cursor.sequence.valueAt store position
  | none => .undefined

end Cursor

namespace StoreM

def newIterator (value : Value) : StoreM Value := do
  match Sequence.of (← get) value with
  | .ok sequence => return .iterator (← alloc (.iterator (.start sequence)))
  | .error fault => throw fault

/-- Advances an iterator and says whether it stands on an element. -/
def iteratorNext (ref : Ref) : StoreM Bool := do
  let cursor := ((← get).cursor ref).advance
  write ref (.iterator cursor)
  return cursor.inside

end StoreM

namespace Store

/-- All elements of a sequence as they are now, with their keys. -/
def drain (store : Store) (sequence : Sequence) : List (Value × Value) :=
  (List.finRange sequence.count).map fun position =>
    (sequence.keyAt position, sequence.valueAt store position)

end Store

end ScriptMachine
