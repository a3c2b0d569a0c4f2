import ScriptMachine.Json

/-! What a machine may use. Limits are read from and written as JSON. -/

namespace ScriptMachine

structure Limits where
  /-- Slots of the operand stack. -/
  stackSize : Nat := 2048
  /-- Frames, those of every enclosing machine included. -/
  maxFrames : Nat := 1024
  /-- Machines nested in one run. -/
  maxNestedCalls : Nat := 64
  /-- Slots of the global table. -/
  globalsSize : Nat := 1024
  /-- Allocations of one run; a negative number means no limit. -/
  maxAllocations : Int := -1
  deriving DecidableEq

def maxStringSize : Nat := 2147483647

def maxBytesSize : Nat := 2147483647

/-- The most elements an array built by one native call may have. -/
def maxArraySize : Nat := 16777216

def maxSigned : Int := 9223372036854775807

namespace Limits

/-- The names of the limits, in the order in which they are written. -/
def keys : List String :=
  ["stack_size", "max_frames", "max_nested_calls", "globals_size", "max_allocs"]

def render (limits : Limits) : String :=
  "\x7b\"stack_size\":" ++ toString limits.stackSize ++
    ",\"max_frames\":" ++ toString limits.maxFrames ++
    ",\"max_nested_calls\":" ++ toString limits.maxNestedCalls ++
    ",\"globals_size\":" ++ toString limits.globalsSize ++
    ",\"max_allocs\":" ++ toString limits.maxAllocations ++ "\x7d"

/-- A size: an unsigned number of 64 bits. A written minus sign makes it none, even before zero. -/
def readSize? : Json → Option Nat
  | .integer false magnitude => if magnitude < 18446744073709551616 then some magnitude else none
  | _ => none

/-- A signed number of 64 bits. Zero has no sign. -/
def readSigned? : Json → Option Int
  | .integer false magnitude => if magnitude < 9223372036854775808 then some magnitude else none
  | .integer true magnitude =>
    if 0 < magnitude && magnitude ≤ 9223372036854775808 then some (-(magnitude : Int)) else none
  | _ => none

/-- Sets the limit with a name; other names are passed over. -/
def set? (limits : Limits) (key : String) (value : Json) : Option Limits :=
  match key with
  | "stack_size" => (readSize? value).map fun n => { limits with stackSize := n }
  | "max_frames" => (readSize? value).map fun n => { limits with maxFrames := n }
  | "max_nested_calls" => (readSize? value).map fun n => { limits with maxNestedCalls := n }
  | "globals_size" => (readSize? value).map fun n => { limits with globalsSize := n }
  | "max_allocs" => (readSigned? value).map fun n => { limits with maxAllocations := n }
  | _ => some limits

/-- Sets limits one after the other. A limit may be set once, and a name must be readable. -/
def setAll? (limits : Limits) (seen : List String) : List (Option String × Json) → Option Limits
  | [] => some limits
  | (none, _) :: _ => none
  | (some key, value) :: rest =>
    if key ∈ seen then none
    else do
      let changed ← limits.set? key value
      changed.setAll? (if key ∈ keys then key :: seen else seen) rest

/-- The limits of a document: an object by name, or a list in order. What is missing keeps its
default. -/
def ofJson? : Json → Option Limits
  | .object members => setAll? {} [] members
  | .list items =>
    if items.length ≤ keys.length then setAll? {} [] ((keys.map some).zip items) else none
  | _ => none

def parse? (text : String) : Option Limits := Json.parse? text >>= ofJson?

end Limits

end ScriptMachine
