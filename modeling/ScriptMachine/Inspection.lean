import ScriptMachine.Snapshot
import ScriptMachine.Machine

/-! What can be asked about a value, and one-line summaries of machines, functions and instances. -/

namespace ScriptMachine

def Machine.summary (machine : Machine) : String :=
  "Vm \x7b sp: " ++ toString machine.sp ++ ", frames: " ++ toString machine.calls.depth ++
    ", nesting: " ++ toString machine.nesting ++ ", ip: " ++ toString machine.ip ++
    ", allocs: " ++ toString machine.budget ++
    ", is_child: " ++ toString machine.serves.isSome ++ " \x7d"

def Function.summary (function : Function) : String :=
  "CompiledFunction \x7b num_args: " ++ toString function.code.arity ++
    ", num_locals: " ++ toString function.code.locals ++
    ", free: " ++ toString function.free.size ++
    ", size: " ++ toString function.code.instructions.size ++ " \x7d"

def nativeSummary (name : String) (isMethod : Bool) : String :=
  "UserFunction \x7b name: " ++ Text.quoted name ++ ", is_method: " ++ toString isMethod ++ " \x7d"

/-- A function, native callable or instance in one line; for a function also whether it is busy. -/
def Value.summary? (store : Store) : Value → Option String
  | .function ref =>
    let function := store.function ref
    some (function.summary ++ " " ++ toString function.busy)
  | .host _ callee => some (nativeSummary callee.name callee.isMethod)
  | .mapper .. => some (nativeSummary mapKey false)
  | .object ref =>
    some ("Instance \x7b type: " ++ Text.quoted (store.typeNameOf ref) ++
      ", values: " ++ toString (store.valuesOf ref).size ++ " \x7d")
  | _ => none

/-- What can be asked about a value. -/
structure Inspection where
  kind : String
  text : String
  description : String
  isFalsy : Bool
  isCallable : Bool
  isIterable : Bool
  isMethod : Bool
  isMethodConvertible : Bool
  /-- The receiver of a bound method, while it exists. -/
  target : Option Snapshot
  key : Option String
  string : Option String
  int : Option Int64
  summary : Option String

/-- The receiver of a bound method, while it exists. -/
def Value.target? (lives : Ref → Bool) : Value → Option Value
  | .bound _ hold _ receiver => heldReceiver? lives hold receiver
  | _ => none

def Store.inspect (store : Store) (lives : Ref → Bool) (value : Value) : Inspection where
  kind := value.kind store
  text := store.display value
  description := store.describe value
  isFalsy := value.isFalsy store
  isCallable := value.isCallable
  isIterable := value.isIterable
  isMethod := value.isMethod store
  isMethodConvertible := value.isMethodConvertible
  target := (value.target? lives).map (store.snapshot lives)
  key := store.keyText? value
  string := value.text?
  int := value.int?
  summary := value.summary? store

end ScriptMachine
