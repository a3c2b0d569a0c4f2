import ScriptMachine.Value.Kind
import ScriptMachine.Decimal
import ScriptMachine.Text.Utf8
import Std.Data.TreeSet

/-! Values as text. A text is written from left to right, each part behind what has been written so
far. A container met again inside itself is cut short there, so the text of a cyclic structure is
finite. -/

namespace ScriptMachine

abbrev Writer := String → String

namespace Writer

def text (piece : String) : Writer := fun out => out ++ piece

def andThen (first second : Writer) : Writer := fun out => second (first out)

def separated (between : String) : List Writer → Writer
  | [] => id
  | first :: rest => fun out => rest.foldl (fun out write => write (out ++ between)) (first out)

end Writer

namespace Value

/-- Writes a value, where `container` writes those that hold other values. -/
def writeWith (store : Store) (container : Value → Writer) : Value → Writer
  | undefined => .text "<undefined>"
  | useDefault => .text "<default>"
  | bool b => .text (if b then "true" else "false")
  | int i => .text (toString i.toInt)
  | float x => .text (Decimal.ofBits x.toBits)
  | char c => .text c.toString
  | string s => .text (Text.quoted s)
  | bytes data => .text (Text.ofBytes data)
  | error _ payload => .andThen (.text "error: ") (payload.writeWith store container)
  | function _ => .text "<compiled-function>"
  | builtin _ entry => .text ("<builtin-function:" ++ entry.name ++ ">")
  | host _ callee => .text ("<user-function:" ++ callee.name ++ ">")
  | mapper .. => .text ("<user-function:" ++ mapKey ++ ">")
  | bound _ _ callee _ => callee.writeWith store container
  | box _ => .text "free-var"
  | type ref => .text ("<type:" ++ (store.type ref).name ++ ">")
  | member .property _ => .text "<property>"
  | members kind ref => .text ("<" ++ kind.plural ++ " " ++ toString (store.members ref).size ++ ">")
  | iterator _ => .text "<iterator>"
  | value => container value

end Value

namespace Store

/-- The containers that are open where something is written. -/
abbrev Path := Std.TreeSet Ref

def writeEntries (write : Value → Writer) (table : Table Value) : Writer := fun out =>
  let entry (entry : String × Value) : Writer := fun out => write entry.2 (out ++ entry.1 ++ ": ")
  Writer.separated ", " (table.entries.map entry) (out ++ "\x7b") ++ "\x7d"

/-- Writes a container, where `write` writes what it holds below a longer path. -/
def writeContainer (store : Store) (write : Path → Value → Writer) (path : Path) : Value → Writer
  | .array _ ref =>
    if path.contains ref then .text "[...]"
    else fun out =>
      Writer.separated ", " ((store.elements ref).toList.map (write (path.insert ref))) (out ++ "[")
        ++ "]"
  | .map _ ref =>
    if path.contains ref then .text "\x7b...\x7d"
    else writeEntries (write (path.insert ref)) (store.entries ref)
  | .object ref =>
    .andThen (.text (store.typeNameOf ref))
      (if path.contains ref then .text "\x7b...\x7d"
      else writeEntries (write (path.insert ref)) (store.valuesOf ref))
  | .member kind ref =>
    if path.contains ref then .text "<...>"
    else fun out =>
      write (path.insert ref) (store.entry ref).value (out ++ "<" ++ kind.singular ++ " ") ++ ">"
  | _ => id

/-- Writes a value below a path of open containers. Containers nested deeper than `fuel` are left
out. -/
def write (store : Store) : Nat → Path → Value → Writer
  | 0, _ => Value.writeWith store fun _ => id
  | fuel + 1, path => Value.writeWith store (store.writeContainer (store.write fuel) path)

/-- How deep containers can be nested in the store before one of them recurs. -/
def depth (store : Store) : Nat := store.cells.size + 1

def display (store : Store) (value : Value) : String := store.write store.depth ∅ value ""

def describe (store : Store) (value : Value) : String :=
  value.kind store ++ "(" ++ store.display value ++ ")"

/-- The text of a value as a key or as a part of a longer text; the undefined value has none. -/
def keyText? (store : Store) : Value → Option String
  | .undefined => none
  | .string s => some s
  | .char c => some c.toString
  | .bytes data => some (Text.ofBytes data)
  | value => some (store.display value)

end Store

end ScriptMachine
