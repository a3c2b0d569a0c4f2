import ScriptMachine.Registry
import ScriptMachine.Source

/-! Values of scripts. Scalars, text and bytes stand for themselves; containers, functions and
the objects of the type system are references to cells of a store. -/

namespace ScriptMachine

abbrev Ref := Nat

/-- What a reference to a container allows. -/
inductive Handle where
  | writable
  | frozen
  deriving DecidableEq

/-- Whether a bound method keeps its receiver alive. -/
inductive Hold where
  | strong
  | weak
  deriving DecidableEq

inductive MemberKind where
  | field
  | method
  | property
  deriving DecidableEq

inductive Builtin where
  | copy | range | delete
  | type | typeOf | field | fields | method | methods | property | properties | getMethods
  deriving DecidableEq

/-- A function of the host: the name scripts see, and the routine that answers its calls. -/
structure HostFunction where
  name : String
  routine : String
  isMethod : Bool
  deriving DecidableEq

/-- A value. Errors and bound methods never change once made, so they hold their parts directly and
carry an identity of their own. -/
inductive Value where
  | undefined
  /-- Asks a call for the declared default. -/
  | useDefault
  | bool (b : Bool)
  | int (i : Int64)
  | float (x : Float)
  | char (c : Char)
  | string (s : String)
  | bytes (data : Array UInt8)
  | array (handle : Handle) (ref : Ref)
  | map (handle : Handle) (ref : Ref)
  | error (id : Nat) (payload : Value)
  | function (ref : Ref)
  | builtin (id : Nat) (entry : RegistryEntry Builtin)
  | host (id : Nat) (function : HostFunction)
  /-- Answers calls with the mapping form of its subject. -/
  | mapper (id : Nat) (subject : Value)
  | bound (id : Nat) (hold : Hold) (callee receiver : Value)
  /-- A variable that closures share. -/
  | box (ref : Ref)
  | type (ref : Ref)
  /-- An instance of a type. -/
  | object (ref : Ref)
  | member (kind : MemberKind) (ref : Ref)
  | members (kind : MemberKind) (ref : Ref)
  | iterator (ref : Ref)

namespace Value

instance : Inhabited Value := ⟨undefined⟩

def isCallable : Value → Bool
  | function _ | builtin .. | host .. | mapper .. | bound .. | type _ => true
  | _ => false

/-- Whether the value can be bound to a receiver. Types are callable and yet cannot. -/
def isMethodConvertible : Value → Bool
  | function _ | builtin .. | host .. | mapper .. | bound .. => true
  | _ => false

def isIterable : Value → Bool
  | undefined | useDefault | string _ | bytes _ | array .. | map .. | object _ => true
  | _ => false

def text? : Value → Option String
  | string s => some s
  | _ => none

def int? : Value → Option Int64
  | int i => some i
  | _ => none

/-- The receiver of a bound method, unless it is an instance held weakly that no longer `lives`. -/
def heldReceiver? (lives : Ref → Bool) (hold : Hold) (receiver : Value) : Option Value :=
  match hold, receiver with
  | .weak, object ref => if lives ref then some receiver else none
  | _, _ => some receiver

/-- The references that a value holds and keeps alive. -/
def refs : Value → List Ref
  | array _ ref | map _ ref | function ref | box ref | type ref | object ref
  | member _ ref | members _ ref | iterator ref => [ref]
  | error _ payload => payload.refs
  | mapper _ subject => subject.refs
  | bound _ .strong callee receiver => callee.refs ++ receiver.refs
  | bound _ .weak callee _ => callee.refs
  | _ => []

end Value

/-- The code of a function and how it takes its arguments. It never changes. -/
structure FunctionCode where
  instructions : Array UInt8 := #[]
  /-- Local slots the code uses. -/
  locals : Nat := 0
  /-- Positional parameters. -/
  arity : Nat := 0
  /-- Whether further positional arguments are gathered in an array. -/
  variadic : Bool := false
  /-- Keyword parameters in slot order, with their defaults. -/
  keywords : List (String × Value) := []
  /-- Whether undeclared keywords are gathered in a map. -/
  catchAll : Bool := false
  isMethod : Bool := false
  sources : SourceMap := {}

namespace FunctionCode

def paramSlots (code : FunctionCode) : Nat :=
  code.arity + code.variadic.toNat + code.keywords.length + code.catchAll.toNat

def frameSize (code : FunctionCode) : Nat := max code.locals code.paramSlots

def keywordIndex? (code : FunctionCode) (name : String) : Option Nat :=
  code.keywords.findIdx? (·.1 == name)

end FunctionCode

end ScriptMachine
