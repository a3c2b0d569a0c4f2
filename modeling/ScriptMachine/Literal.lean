import ScriptMachine.Builtins

/-! Values described from outside a session. Building a description makes every object anew, except
for those that a register already holds. -/

namespace ScriptMachine

/-- A description of a value. -/
inductive Literal where
  /-- A value that refers to no cell. -/
  | plain (value : Value)
  | array (handle : Handle) (items : List Literal)
  | map (handle : Handle) (items : List (String × Literal))
  | error (payload : Literal)
  | box (content : Literal)
  | builtin (name : String)
  | host (function : HostFunction)
  | bound (callee receiver : Literal)
  /-- A function without free variables, and the defaults of its keywords. -/
  | function (code : FunctionCode) (keywords : List (String × Literal))
  | register (name : String)

namespace Literal

mutual

def build (registers : Table Value) : Literal → StoreM Value
  | plain value => return value
  | array handle items => do StoreM.newArray (← buildList registers items).toArray handle
  | map handle items => do StoreM.newMap (.ofList (← buildEntries registers items)) handle
  | error payload => do StoreM.newError (← build registers payload)
  | box content => do return .box (← StoreM.newBox (← build registers content))
  | builtin name =>
    match (Builtin.registry.indexOf? name).bind Builtin.registry.entry? with
    | some entry => return .builtin (← StoreM.freshId) entry
    | none => return .undefined
  | host callee => return .host (← StoreM.freshId) callee
  | bound callee receiver => do
    let callee ← build registers callee
    let receiver ← build registers receiver
    StoreM.bind .strong receiver callee
  | function code keywords => do
    let keywords ← buildEntries registers keywords
    return .function (← StoreM.newFunction { code with keywords } #[])
  | register name => return (registers.get? name).getD .undefined

def buildList (registers : Table Value) : List Literal → StoreM (List Value)
  | [] => return []
  | first :: rest => return (← build registers first) :: (← buildList registers rest)

def buildEntries (registers : Table Value) : List (String × Literal) → StoreM (List (String × Value))
  | [] => return []
  | (key, first) :: rest =>
    return (key, ← build registers first) :: (← buildEntries registers rest)

end

end Literal

end ScriptMachine
