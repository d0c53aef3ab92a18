import RecordMachine.Machine.Local

/-!
# Computations on values

What an instruction computes from its operands alone is never an object, and if it fails then
because of these operands (`isComputed`). An instruction that expects an object finds it among its
operands (`Value.eq_object_of_target`) or fails because of them.
-/

namespace RecordMachine

/-- Whether a fault of this category is about the operands that an instruction has met. -/
def FaultKind.isAboutOperands : FaultKind → Bool
  | .typeMismatch | .indexOutOfRange | .invalidConversion | .nilReference | .divideByZero => true
  | _ => false

/-- Whether the outcome is that of a computation on values: a value that is no object, or a fault
about the operands. -/
def isComputed : Except Cause Value → Bool
  | .ok v => v.tag != .object
  | .error cause => cause.kind.isAboutOperands

namespace Value

/-- Whole numbers give a whole number, or a division by zero. -/
theorem isComputed_intArithmetic (op : Opcode) (m n : Int64) :
    isComputed (intArithmetic op m n) = true := by
  unfold intArithmetic
  split
  case h_4 | h_5 => split <;> rfl
  all_goals rfl

/-- Doubles give a double, also where they are divided by zero. -/
theorem isComputed_doubleArithmetic (op : Opcode) (x y : Float) :
    isComputed (doubleArithmetic op x y) = true := by
  unfold doubleArithmetic
  split <;> rfl

/-- Other operands give a text, for addition, or are of the wrong types. -/
theorem isComputed_arithmetic (op : Opcode) (a b : Value) :
    isComputed (arithmetic op a b) = true := by
  unfold arithmetic
  split
  · exact isComputed_intArithmetic op _ _
  · exact isComputed_doubleArithmetic op _ _
  · split <;> rfl

theorem isComputed_logic (op : Opcode) (a b : Value) : isComputed (logic op a b) = true := by
  unfold logic
  split <;> rfl

/-- A comparison gives a truth value, or the operands cannot be compared. -/
theorem isComputed_comparison (op : Opcode) (a b : Value) :
    isComputed (comparison op a b) = true := by
  unfold comparison
  split
  · rfl
  · rfl
  · split
    · rfl
    · rfl
    · split <;> rfl

theorem isComputed_negate (v : Value) : isComputed v.negate = true := by
  unfold negate
  split <;> rfl

theorem isComputed_complement (v : Value) : isComputed v.complement = true := by
  unfold complement
  split <;> rfl

theorem isComputed_length (v : Value) : isComputed v.length = true := by
  unfold length
  split <;> rfl

/-- There is a character at an index, or the index is out of range. -/
theorem isComputed_charAt (index string : Value) : isComputed (charAt index string) = true := by
  unfold charAt
  split
  · dsimp only
    split <;> rfl
  · rfl

theorem isComputed_toInt (v : Value) : isComputed v.toInt = true := by
  unfold toInt
  split
  case h_3 => split <;> rfl
  all_goals rfl

theorem isComputed_toDouble (v : Value) : isComputed v.toDouble = true := by
  unfold toDouble
  split
  case h_3 => split <;> rfl
  all_goals rfl

theorem isComputed_toText (v : Value) : isComputed v.toText = true := by
  unfold toText
  split <;> rfl

/-- Where an object is expected, the fault is about the operand. -/
theorem isAboutOperands_of_target {op : Opcode} {v : Value} {cause : Cause}
    (h : v.target op = .error cause) : cause.kind.isAboutOperands = true := by
  unfold target at h
  split at h <;> cases h <;> rfl

/-- Where an object is expected and found, it is the operand. -/
theorem eq_object_of_target {op : Opcode} {v : Value} {id : ObjectId} (h : v.target op = .ok id) :
    v = .object id := by
  unfold target at h
  split at h <;> cases h
  rfl

end Value

end RecordMachine
