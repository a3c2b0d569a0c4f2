import ScriptMachine.Value.Kind
import ScriptMachine.Text.Characters

/-! Parts of sequences. Bounds are half-open; they are compared as given and clamped afterwards. -/

namespace ScriptMachine

/-- A range of positions among `size` elements, from the first to before the last. -/
structure Span (size : Nat) where
  first : Nat
  last : Nat
  ordered : first ≤ last
  inside : last ≤ size

namespace Value

/-- A bound of a slice: an integer, or undefined for an open end. -/
def sliceBound (store : Store) (openEnd : Int) : Value → Except Fault Int
  | undefined => .ok openEnd
  | int i => .ok i.toInt
  | other => .error (.invalidSliceIndexType (other.kind store))

def sliceBounds (store : Store) (low high : Value) (size : Nat) : Except Fault (Span size) := do
  let low ← sliceBound store 0 low
  let high ← sliceBound store size high
  if ordered : low ≤ high then
    return { first := min low.toNat size, last := min high.toNat size
             ordered := by omega, inside := by omega }
  else throw (.invalidSliceIndex low high)

/-- The part of a sequence between two bounds. A part of an array is a new array. -/
def slice (value low high : Value) : StoreM Value := do
  let store ← get
  match value with
  | array _ ref =>
    let elements := store.elements ref
    match sliceBounds store low high elements.size with
    | .ok span => StoreM.newArray (elements.extract span.first span.last) .writable
    | .error fault => throw fault
  | string s =>
    match sliceBounds store low high s.length with
    | .ok span => return .string (Text.part s span.first span.last)
    | .error fault => throw fault
  | bytes data =>
    match sliceBounds store low high data.size with
    | .ok span => return .bytes (data.extract span.first span.last)
    | .error fault => throw fault
  | other => throw (.notIndexable (other.kind store))

end Value

end ScriptMachine
