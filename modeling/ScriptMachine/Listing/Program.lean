import ScriptMachine.Listing
import ScriptMachine.Machine

/-! Listings of functions and of whole programs. -/

namespace ScriptMachine

namespace Listing

def block (indent : String) (lines : List String) : String :=
  lines.foldl (fun text line => text ++ indent ++ line ++ "\n") ""

def gathers (more : Bool) : String := if more then " (+variadic)" else ""

end Listing

namespace FunctionCode

/-- The line of the keyword parameters; a function that takes none has no such line. -/
def keywordLine (code : FunctionCode) : List String :=
  if code.keywords.isEmpty && !code.catchAll then []
  else ["Keywords: [" ++ ", ".intercalate (code.keywords.map (·.1)) ++ "]" ++
    Listing.gathers code.catchAll]

/-- A function under a name: its parameters, its locals and its code. -/
def listing (code : FunctionCode) (name : String) : String :=
  Listing.block "" (
    ["========== Function: " ++ name ++ " ==========",
      "Parameters: " ++ toString code.arity ++ Listing.gathers code.variadic] ++
    code.keywordLine ++
    ["Locals: " ++ toString code.locals] ++
    Listing.lines code.instructions 0)

end FunctionCode

namespace Program

/-- A constant: the code of a function, the text and kind of anything else. -/
def constantListing (store : Store) (index : Nat) (constant : Value) : String :=
  let label := "[" ++ Listing.padLeft ' ' 3 index ++ "] "
  match constant with
  | .function ref =>
    label ++ "(compiled-function)\n" ++
      Listing.block "     " (Listing.lines (store.function ref).code.instructions 0)
  | other => label ++ store.display other ++ " (" ++ other.kind store ++ ")\n"

def listing (store : Store) (program : Program) : String :=
  let constants := program.constants.toList.zipIdx.map fun (constant, index) =>
    constantListing store index constant
  "Main:\n" ++ Listing.block "" (Listing.lines (store.function program.main).code.instructions 0) ++
    "Constants:\n" ++ String.join constants

end Program

end ScriptMachine
