import RecordMachine.Opcode
import RecordMachine.Value

/-!
# Faults of a run

A run stops at the first fault. A `Cause` says what went wrong, with the data that the message
needs; its kind and its wording are functions of it. The machine adds the place where it happened.
-/

namespace RecordMachine

inductive FaultKind where
  | typeMismatch | unknownFunction | indexOutOfRange | invalidConversion | nilReference
  | invalidObject | unknownField | divideByZero | stackUnderflow | invalidSlot
  | malformedInstruction | noEntryPoint | callDepthExceeded | heapExhausted | io
deriving DecidableEq

/-- The heading of a category in messages. -/
def FaultKind.text : FaultKind → String
  | .typeMismatch => "Type error"
  | .unknownFunction => "Unknown function"
  | .indexOutOfRange => "Index out of range"
  | .invalidConversion => "Invalid conversion"
  | .nilReference => "Nil reference"
  | .invalidObject => "Invalid object"
  | .unknownField => "Unknown field"
  | .divideByZero => "Division by zero"
  | .stackUnderflow => "Stack underflow"
  | .invalidSlot => "Invalid slot"
  | .malformedInstruction => "Malformed instruction"
  | .noEntryPoint => "No entry point"
  | .callDepthExceeded => "Call depth exceeded"
  | .heapExhausted => "Heap exhausted"
  | .io => "I/O error"

/-- What went wrong. -/
inductive Cause where
  /-- Two operands whose tags the operation does not take. -/
  | operands (op : Opcode) (left right : Tag)
  /-- One operand whose tag the operation does not take. -/
  | operand (op : Opcode) (found : Tag)
  /-- Arithmetic was asked of an opcode that has none. -/
  | notArithmetic (op : Opcode)
  /-- An ordering was asked of an opcode that has none. -/
  | notComparison (op : Opcode)
  /-- The condition of a jump is no truth value. -/
  | notCondition (found : Tag)
  /-- The target of a heap operation is neither an object nor nil. -/
  | notObject (op : Opcode) (found : Tag)
  /-- A call of a function that does not exist. -/
  | unknownFunction (name : String)
  /-- A character index outside the string. -/
  | indexOutOfRange (index : Int64) (length : Nat)
  /-- A text that is no whole number. -/
  | notInt (text : String)
  /-- A text that is no double. -/
  | notDouble (text : String)
  /-- A heap operation on nil. -/
  | nilReference (op : Opcode)
  /-- An object that was never made. -/
  | noObject (id : ObjectId)
  /-- An object that has been freed. -/
  | freedObject (id : ObjectId)
  /-- A field that the object does not have. -/
  | unknownField (id : ObjectId) (field : String)
  /-- A whole number divided by zero. -/
  | zeroDivisor (dividend : Int64)
  /-- The remainder of a whole number by zero. -/
  | zeroModulus (dividend : Int64)
  /-- An operand was needed and the stack held too few. -/
  | emptyStack
  /-- A slot that holds nothing yet. -/
  | noSlot (slot count : Nat)
  /-- The instruction's operand is absent or of another kind than its opcode needs. -/
  | missingOperand (op : Opcode) (expected : OperandKind)
  /-- The last instruction was passed without a return. -/
  | fellOff (function : String) (pc : Nat)
  /-- No function is active. -/
  | noActivation
  /-- The function that the run should start in does not exist. -/
  | noEntry (name : String)
  /-- The function that the run should start in has parameters. -/
  | entryParameters (name : String) (count : Nat)
  /-- A call beyond the limit on active functions. -/
  | callDepth (name : String) (limit : Nat)
  /-- Every object id has been used. -/
  | heapExhausted
  /-- The console reported a failure of its own. -/
  | device (message : String)
  /-- A line of input that is not UTF-8. -/
  | notUtf8
  /-- The output can no longer be used. -/
  | outputPoisoned
  /-- The input can no longer be used. -/
  | inputPoisoned
deriving DecidableEq

namespace Cause

def kind : Cause → FaultKind
  | .operands .. | .operand .. | .notArithmetic _ | .notComparison _ | .notCondition _
  | .notObject .. => .typeMismatch
  | .unknownFunction _ => .unknownFunction
  | .indexOutOfRange .. => .indexOutOfRange
  | .notInt _ | .notDouble _ => .invalidConversion
  | .nilReference _ => .nilReference
  | .noObject _ | .freedObject _ => .invalidObject
  | .unknownField .. => .unknownField
  | .zeroDivisor _ | .zeroModulus _ => .divideByZero
  | .emptyStack => .stackUnderflow
  | .noSlot .. => .invalidSlot
  | .missingOperand .. | .fellOff .. | .noActivation => .malformedInstruction
  | .noEntry _ | .entryParameters .. => .noEntryPoint
  | .callDepth .. => .callDepthExceeded
  | .heapExhausted => .heapExhausted
  | .device _ | .notUtf8 | .outputPoisoned | .inputPoisoned => .io

def message : Cause → String
  | .operands op left right =>
    "Invalid operands for " ++ op.mnemonic ++ ": " ++ left.name ++ " and " ++ right.name
  | .operand op found => "Invalid operand for " ++ op.mnemonic ++ ": " ++ found.name
  | .notArithmetic op => op.mnemonic ++ " is not arithmetic"
  | .notComparison op => op.mnemonic ++ " is not a comparison"
  | .notCondition found => "JMPF expects a bool condition, found " ++ found.name
  | .notObject op found => op.mnemonic ++ " expects an object, found " ++ found.name
  | .unknownFunction name => "no function named '" ++ name ++ "'"
  | .indexOutOfRange index length =>
    "index " ++ toString index.toInt ++ " out of range for string of length " ++ toString length
  | .notInt text => "cannot convert \"" ++ text ++ "\" to int"
  | .notDouble text => "cannot convert \"" ++ text ++ "\" to double"
  | .nilReference op => op.mnemonic ++ " on nil"
  | .noObject id => "no object with id " ++ toString id
  | .freedObject id => "object " ++ toString id ++ " has been freed"
  | .unknownField id field => "object " ++ toString id ++ " has no field '" ++ field ++ "'"
  | .zeroDivisor dividend => toString dividend.toInt ++ " / 0"
  | .zeroModulus dividend => toString dividend.toInt ++ " % 0"
  | .emptyStack => "operand stack is empty"
  | .noSlot slot count =>
    "slot " ++ toString slot ++ " is beyond the " ++ toString count ++ " allocated slots"
  | .missingOperand op expected => op.mnemonic ++ " expects a " ++ expected.text ++ " operand"
  | .fellOff function pc => "fell off the end of '" ++ function ++ "' at " ++ toString pc
  | .noActivation => "no active frame"
  | .noEntry name => "no function named '" ++ name ++ "'"
  | .entryParameters name count =>
    "entry point '" ++ name ++ "' must take no parameters, found " ++ toString count
  | .callDepth name limit =>
    "calling '" ++ name ++ "' would exceed " ++ toString limit ++ " activations"
  | .heapExhausted => "no object ids left after 18446744073709551615"
  | .device message => message
  | .notUtf8 => "stream did not contain valid UTF-8"
  | .outputPoisoned => "output writer lock poisoned"
  | .inputPoisoned => "input reader lock poisoned"

end Cause

/-- The instruction at which a run stopped. -/
structure Location where
  function : String
  pc : Nat
  instruction : String
deriving DecidableEq

/-- A fault as it is shown: category, wording and, if known, place. -/
structure Report where
  kind : FaultKind
  message : String
  location : Option Location := none
deriving DecidableEq

namespace Report

/-- Adds a place, unless one is known already: the innermost place is the one that counts. -/
def located (r : Report) (l : Location) : Report :=
  { r with location := r.location.or (some l) }

def text (r : Report) : String :=
  r.kind.text ++ ": " ++ r.message ++
    match r.location with
    | none => ""
    | some l => " (in " ++ l.function ++ " at " ++ toString l.pc ++ ": " ++ l.instruction ++ ")"

end Report

/-- A fault of a run: its cause, and the instruction that raised it unless it lies outside of
any. -/
structure Fault where
  cause : Cause
  location : Option Location := none
deriving DecidableEq

namespace Fault

/-- The fault as it is shown. -/
def report (f : Fault) : Report := ⟨f.cause.kind, f.cause.message, f.location⟩

def text (f : Fault) : String := f.report.text

end Fault

end RecordMachine
