/-! The instruction set: one byte for the operation, then operands of fixed widths. -/

namespace ScriptMachine

inductive Opcode where
  | constant | pushUndefined | pushDefault | pushTrue | pushFalse
  | binary | equal | notEqual | logicalNot | complement | negate
  | pop
  | jumpFalsy | andJump | orJump | jump
  | setGlobal | setGlobalPath | getGlobal
  | defineLocal | setLocal | setLocalPath | getLocal | getBuiltin | getLocalBox
  | getFree | setFree | getFreeBox | setFreePath
  | array | map | error | freeze | index | slice
  | call | ret | closure | callee | callArguments | callKeywords
  | iterate | iteratorNext | iteratorKey | iteratorValue
  | suspend
  deriving DecidableEq

namespace Opcode

/-- All operations in the order of their bytes. -/
def all : List Opcode := [
  constant, pushUndefined, pushDefault, pushTrue, pushFalse,
  binary, equal, notEqual, logicalNot, complement, negate, pop,
  jumpFalsy, andJump, orJump, jump,
  setGlobal, setGlobalPath, getGlobal,
  defineLocal, setLocal, setLocalPath, getLocal, getBuiltin, getLocalBox,
  getFree, setFree, getFreeBox, setFreePath,
  array, map, error, freeze, index, slice,
  call, ret, closure, callee, callArguments, callKeywords,
  iterate, iteratorNext, iteratorKey, iteratorValue, suspend]

def byte : Opcode → UInt8
  | constant => 0 | pushUndefined => 1 | pushDefault => 2 | pushTrue => 3 | pushFalse => 4
  | binary => 10 | equal => 11 | notEqual => 12 | logicalNot => 13 | complement => 14 | negate => 15
  | pop => 20
  | jumpFalsy => 25 | andJump => 26 | orJump => 27 | jump => 28
  | setGlobal => 30 | setGlobalPath => 31 | getGlobal => 32
  | defineLocal => 33 | setLocal => 34 | setLocalPath => 35 | getLocal => 36
  | getBuiltin => 37 | getLocalBox => 38
  | getFree => 39 | setFree => 40 | getFreeBox => 41 | setFreePath => 42
  | array => 50 | map => 51 | error => 52 | freeze => 53 | index => 54 | slice => 55
  | call => 60 | ret => 61 | closure => 62 | callee => 63
  | callArguments => 64 | callKeywords => 65
  | iterate => 70 | iteratorNext => 71 | iteratorKey => 72 | iteratorValue => 73
  | suspend => 80

def ofByte? (byte : UInt8) : Option Opcode :=
  match byte with
  | 0 => some constant | 1 => some pushUndefined | 2 => some pushDefault | 3 => some pushTrue
  | 4 => some pushFalse
  | 10 => some binary | 11 => some equal | 12 => some notEqual | 13 => some logicalNot
  | 14 => some complement | 15 => some negate
  | 20 => some pop
  | 25 => some jumpFalsy | 26 => some andJump | 27 => some orJump | 28 => some jump
  | 30 => some setGlobal | 31 => some setGlobalPath | 32 => some getGlobal
  | 33 => some defineLocal | 34 => some setLocal | 35 => some setLocalPath | 36 => some getLocal
  | 37 => some getBuiltin | 38 => some getLocalBox
  | 39 => some getFree | 40 => some setFree | 41 => some getFreeBox | 42 => some setFreePath
  | 50 => some array | 51 => some map | 52 => some error | 53 => some freeze | 54 => some index
  | 55 => some slice
  | 60 => some call | 61 => some ret | 62 => some closure | 63 => some callee
  | 64 => some callArguments | 65 => some callKeywords
  | 70 => some iterate | 71 => some iteratorNext | 72 => some iteratorKey | 73 => some iteratorValue
  | 80 => some suspend
  | _ => none

/-- The widths of the operands in bytes, in encoding order. -/
def widths : Opcode → List Nat
  | constant | jumpFalsy | andJump | orJump | jump | setGlobal | getGlobal | array | map => [2]
  | setGlobalPath | closure => [2, 1]
  | binary | ret | defineLocal | setLocal | getLocal | getBuiltin | getLocalBox
  | getFree | setFree | getFreeBox => [1]
  | setLocalPath | setFreePath => [1, 1]
  | call => [1, 1, 1, 1]
  | _ => []

def totalWidth : List Nat → Nat
  | [] => 0
  | width :: widths => width + totalWidth widths

/-- The bytes an instruction takes, the operation's own byte included. -/
def size (op : Opcode) : Nat := 1 + totalWidth op.widths

def name : Opcode → String
  | constant => "CONST" | pushUndefined => "NULL" | pushDefault => "DEFAULT" | pushTrue => "TRUE"
  | pushFalse => "FALSE"
  | binary => "BINARYOP" | equal => "EQL" | notEqual => "NEQ" | logicalNot => "NOT"
  | complement => "NEG"
  | negate => "MINUS"
  | pop => "POP"
  | jumpFalsy => "JMPF" | andJump => "ANDJMP" | orJump => "ORJMP" | jump => "JMP"
  | setGlobal => "SETG" | setGlobalPath => "SETSG" | getGlobal => "GETG"
  | defineLocal => "DEFL" | setLocal => "SETL" | setLocalPath => "SETSL" | getLocal => "GETL"
  | getBuiltin => "BUILTIN" | getLocalBox => "GETLP"
  | getFree => "GETF" | setFree => "SETF" | getFreeBox => "GETFP" | setFreePath => "SETSF"
  | array => "ARR" | map => "MAP" | error => "ERROR" | freeze => "IMMUT" | index => "INDEX"
  | slice => "SLICE"
  | call => "CALL" | ret => "RET" | closure => "CLOSURE" | callee => "CALLEE"
  | callArguments => "CALLARGS" | callKeywords => "CALLKWARGS"
  | iterate => "ITER" | iteratorNext => "ITNXT" | iteratorKey => "ITKEY" | iteratorValue => "ITVAL"
  | suspend => "SUSPEND"

def ofName? (name : String) : Option Opcode := all.find? (·.name == name)

end Opcode

/-- The binary operators, in the order of their encoding. -/
inductive Operator where
  | add | sub | mul | quo | rem | and | or | xor | andNot | shiftLeft | shiftRight
  | less | greater | lessEq | greaterEq
  deriving DecidableEq

namespace Operator

def all : List Operator :=
  [add, sub, mul, quo, rem, and, or, xor, andNot, shiftLeft, shiftRight,
    less, greater, lessEq, greaterEq]

def byte : Operator → UInt8
  | add => 0 | sub => 1 | mul => 2 | quo => 3 | rem => 4 | and => 5 | or => 6 | xor => 7
  | andNot => 8 | shiftLeft => 9 | shiftRight => 10
  | less => 11 | greater => 12 | lessEq => 13 | greaterEq => 14

def ofByte? (byte : UInt8) : Option Operator := all[byte.toNat]?

def symbol : Operator → String
  | add => "+" | sub => "-" | mul => "*" | quo => "/" | rem => "%" | and => "&" | or => "|"
  | xor => "^" | andNot => "&^" | shiftLeft => "<<" | shiftRight => ">>"
  | less => "<" | greater => ">" | lessEq => "<=" | greaterEq => ">="

def ofSymbol? (symbol : String) : Option Operator := all.find? (·.symbol == symbol)

end Operator

end ScriptMachine
