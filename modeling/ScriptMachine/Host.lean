import ScriptMachine.Builtins

/-! Functions of the host. A host program can look at the store, make new values, call back into the
machine and ask it to stop; it changes nothing else. -/

namespace ScriptMachine

/-- What the host does in answer to a call, one command after the other. A call names the values that the
routine holds besides those it was called with, until it is answered. -/
inductive HostProgram where
  | reply (result : Except Fault Value)
  | inspect (next : Store → HostProgram)
  | newArray (elements : Array Value) (next : Value → HostProgram)
  | newMap (entries : Table Value) (next : Value → HostProgram)
  | newError (payload : Value) (next : Value → HostProgram)
  | call (request : Request) (held : List Value) (next : Except Fault Value → HostProgram)
  | abort (next : HostProgram)

/-- A host: what each of its routines does with a call. -/
abbrev Host := String → CallContext → HostProgram

def Request.applied (context : CallContext) : Request :=
  { callee := context.argument 0
    arguments := context.arguments.extract 1
    keywords := context.keywords }

def Request.appliedMethod (context : CallContext) : Request :=
  { callee := context.argument 0
    receiver := some (context.argument 1)
    arguments := context.arguments.extract 2
    keywords := context.keywords }

namespace HostProgram

/-- Gives back the arguments, the keywords and the receiver. -/
def echo (context : CallContext) : HostProgram :=
  .newArray context.arguments fun arguments =>
    .newMap context.keywords fun keywords =>
      .newArray #[arguments, keywords, context.receiver.getD .undefined] fun answer =>
        .reply (.ok answer)

/-- Calls the first argument and turns a fault into an error value with its text. -/
def attempt (context : CallContext) : HostProgram :=
  .call (.applied context) [] fun
    | .ok value => .reply (.ok value)
    | .error fault => .newError (.string fault.message) fun error => .reply (.ok error)

/-- Takes one or two arguments and the keywords `a` and `b`, and gives back all four. -/
def check (context : CallContext) : HostProgram :=
  if !context.hasCount 1 2 then .reply (.error .wrongArgumentCount)
  else if !context.hasOnly ["a", "b"] then .reply (.error .unexpectedKeywords)
  else
    .newArray #[context.argument 0, context.argument 1, context.keyword "a", context.keyword "b"]
      fun answer => .reply (.ok answer)

/-- The successor of the first argument, which has to be an integer. -/
def firstInt (context : CallContext) : HostProgram :=
  match context.argument 0 with
  | .int i => .reply (.ok (.int (i + 1)))
  | other => .inspect fun store => .reply (.error (.invalidArgumentType "first" "int" (other.kind store)))

def fail (context : CallContext) : HostProgram :=
  .inspect fun store => .reply (.error (.conversion (store.display (context.argument 0))))

end HostProgram

def Host.standard : Host := fun routine context =>
  match routine with
  | "echo" => .echo context
  | "this" => .reply (.ok (context.receiver.getD .undefined))
  | "apply" => .call (.applied context) [] .reply
  | "apply_method" => .call (.appliedMethod context) [] .reply
  | "try" => .attempt context
  | "check" => .check context
  | "first_int" => .firstInt context
  | "abort" => .abort (.reply (.ok (.bool true)))
  | "fail" => .fail context
  | _ => .reply (.ok .undefined)

end ScriptMachine
