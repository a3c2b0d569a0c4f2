import ScriptMachine.Store

/-! What kind of value a value is, and which values count as false. -/

namespace ScriptMachine

def MemberKind.singular : MemberKind → String
  | field => "field"
  | method => "method"
  | property => "property"

def MemberKind.plural : MemberKind → String
  | field => "fields"
  | method => "methods"
  | property => "properties"

/-- The key under which containers of the type system give and take their mapping form. -/
def mapKey : String := "__map__"

namespace Value

/-- The kind of a value as scripts see it. A bound method has the kind of what it binds. -/
def kind (store : Store) : Value → String
  | undefined => "undefined"
  | useDefault => "default"
  | bool _ => "bool"
  | int _ => "int"
  | float _ => "float"
  | char _ => "char"
  | string _ => "string"
  | bytes _ => "bytes"
  | array .writable _ => "array"
  | array .frozen _ => "immutable-array"
  | map .writable _ => "map"
  | map .frozen _ => "immutable-map"
  | error .. => "error"
  | function _ => "compiled-function"
  | builtin _ entry => "builtin-function:" ++ entry.name
  | host _ callee => "user-function:" ++ callee.name
  | mapper .. => "user-function:" ++ mapKey
  | bound _ _ callee _ => callee.kind store
  | box _ => "<free-var>"
  | type _ => "type"
  | object ref => "instance::" ++ store.typeNameOf ref
  | member kind _ => "type-" ++ kind.singular
  | members kind _ => "type-" ++ kind.plural
  | iterator _ => "iterator"

/-- Whether a value counts as false. Of the floats only the one that is no number does. -/
def isFalsy (store : Store) : Value → Bool
  | undefined | useDefault | error .. => true
  | bool b => !b
  | int i => i == 0
  | float x => x.isNaN
  | char c => c == '\x00'
  | string s => s.isEmpty
  | bytes data => data.isEmpty
  | array _ ref => (store.elements ref).isEmpty
  | map _ ref => (store.entries ref).isEmpty
  | object ref => (store.valuesOf ref).isEmpty
  | _ => false

def isMethod (store : Store) : Value → Bool
  | function ref => (store.function ref).code.isMethod
  | builtin _ entry => entry.isMethod
  | host _ callee => callee.isMethod
  | bound _ _ callee _ => callee.isMethod store
  | _ => false

end Value

end ScriptMachine
