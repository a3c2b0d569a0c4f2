import ScriptMachine.Text.Quoted
import ScriptMachine.Source

/-! Why a program fails. A fault names a cause; its wording is given once, by `Fault.message`. -/

namespace ScriptMachine

inductive Fault where
  /-- A binary operator that the operand kinds do not have. -/
  | invalidOperation (left symbol right : String)
  | invalidUnaryOperation (symbol operand : String)
  | notIndexable (kind : String)
  | notIterable (kind : String)
  | notCallable (kind : String)
  /-- A native callable was given an argument of the wrong kind. -/
  | invalidArgumentType (name expected found : String)
  | invalidArgumentTypeInCall (name callee expected found : String)
  | invalidIndexType (kind : String)
  | invalidIndexValueType (kind : String)
  | invalidIndexOnError
  /-- A key outside a fixed set of keys. -/
  | invalidIndex (key : String)
  | indexOutOfBounds
  | invalidSliceIndexType (kind : String)
  | invalidSliceIndex (low high : Int)
  | notIndexAssignable (kind : String)
  | notIndexDeletable (kind : String)
  | readOnlyProperty (name : String)
  | wrongNumArguments (want got : Nat)
  | wrongNumArgumentsAtLeast (want got : Nat)
  /-- A native callable was given too few or too many arguments. -/
  | wrongArgumentCount
  | wrongArgumentCountInCall (callee : String)
  | unexpectedKeyword (name : String)
  | unexpectedKeywords
  | unexpectedKeywordsInCall (callee : String)
  | stringLimit
  | bytesLimit
  | arrayLimit
  | allocationLimit
  | invalidRangeStep
  | stackOverflow
  | stackUnderflow
  | unknownOpcode (byte : UInt8)
  /-- The instruction at the offset does not lie whole in the code, or names what does not exist. -/
  | invalidInstruction (offset : Nat)
  /-- A native-side call to a function that such a call already runs. -/
  | functionRunning
  | divisionByZero
  | aborted
  | deadlineExceeded
  | undefinedTypeName
  | emptyTypeName
  | notAMethod (kind : String)
  | conversion (text : String)
  /-- A cell was read while an operation held it for writing. It ends the whole session. -/
  | cellHeld
  deriving DecidableEq

namespace Fault

def message : Fault → String
  | invalidOperation left symbol right => s!"invalid operation: {left} {symbol} {right}"
  | invalidUnaryOperation symbol operand => s!"invalid operation: {symbol}{operand}"
  | notIndexable kind => s!"not indexable: {kind}"
  | notIterable kind => s!"not iterable: {kind}"
  | notCallable kind => s!"not callable: {kind}"
  | invalidArgumentType name expected found =>
    s!"invalid type for argument '{name}': expected {expected}, found {found}"
  | invalidArgumentTypeInCall name callee expected found =>
    s!"invalid type for argument '{name}' in call to '{callee}': expected {expected}, found {found}"
  | invalidIndexType kind => s!"invalid index type: {kind}"
  | invalidIndexValueType kind => s!"invalid index value type: {kind}"
  | invalidIndexOnError => "invalid index on error"
  | invalidIndex key => s!"invalid index: {key}"
  | indexOutOfBounds => "index out of bounds"
  | invalidSliceIndexType kind => s!"invalid slice index type: {kind}"
  | invalidSliceIndex low high => s!"invalid slice index: {low} > {high}"
  | notIndexAssignable kind => s!"not index-assignable: {kind}"
  | notIndexDeletable kind => s!"not index-deletable: {kind}"
  | readOnlyProperty name => s!"property '{name}' is read-only"
  | wrongNumArguments want got => s!"wrong number of arguments: want={want}, got={got}"
  | wrongNumArgumentsAtLeast want got => s!"wrong number of arguments: want>={want}, got={got}"
  | wrongArgumentCount => "wrong number of arguments"
  | wrongArgumentCountInCall callee => s!"wrong number of arguments in call to '{callee}'"
  | unexpectedKeyword name => "unexpected kwarg " ++ Text.quoted name
  | unexpectedKeywords => "unexpected kwargs"
  | unexpectedKeywordsInCall callee => s!"unexpected kwargs in call to '{callee}'"
  | stringLimit => "exceeding string size limit"
  | bytesLimit => "exceeding bytes size limit"
  | arrayLimit => "exceeding array size limit"
  | allocationLimit => "allocation limit exceeded"
  | invalidRangeStep => "range step must be greater than 0"
  | stackOverflow => "stack overflow"
  | stackUnderflow => "stack underflow"
  | unknownOpcode byte => s!"unknown opcode: {byte}"
  | invalidInstruction offset => s!"invalid instruction at offset {offset}"
  | functionRunning => "compiled function is already running"
  | divisionByZero => "division by zero"
  | aborted => "execution aborted"
  | deadlineExceeded => "deadline exceeded"
  | undefinedTypeName => "name of type is undefined"
  | emptyTypeName => "name of type is empty"
  | notAMethod kind => s!"value {kind} isn't convertible to method"
  | conversion text => text
  | cellHeld => "the value is being changed"

/-- A bound method was called after its receiver had gone. -/
def receiverGone : Fault := conversion "method receiver no longer exists"

/-- Names the callee in the argument faults that native callables raise. -/
def inCall (callee : String) : Fault → Fault
  | wrongArgumentCount => wrongArgumentCountInCall callee
  | unexpectedKeywords => unexpectedKeywordsInCall callee
  | invalidArgumentType name expected found => invalidArgumentTypeInCall name callee expected found
  | other => other

end Fault

/-- What ends a failed run: the fault and the place of every active frame, innermost first. -/
structure Failure where
  fault : Fault
  trace : List Place

def Failure.message (failure : Failure) : String :=
  failure.trace.foldl (fun text place => text ++ "\n\tat " ++ place.render)
    ("Runtime Error: " ++ failure.fault.message)

end ScriptMachine
