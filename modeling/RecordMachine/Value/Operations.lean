import RecordMachine.Fault
import RecordMachine.Decimal.Reading
import RecordMachine.Decimal.Rounding
import RecordMachine.Text.Blank

/-!
# Operations on values

The operations that the instructions perform on values alone. Operands come in the order in which
they were pushed. Whole numbers are 64-bit words with wrapping arithmetic, and a whole number and a
double are never mixed: conversions are asked for by name.
-/

namespace RecordMachine.Value

/-! ## Arithmetic -/

/-- Arithmetic on whole numbers; division truncates towards zero. -/
def intArithmetic (op : Opcode) (m n : Int64) : Except Cause Value :=
  match op with
  | .add => .ok (.int (m + n))
  | .sub => .ok (.int (m - n))
  | .mul => .ok (.int (m * n))
  | .div => if n = 0 then .error (.zeroDivisor m) else .ok (.int (m / n))
  | .mod => if n = 0 then .error (.zeroModulus m) else .ok (.int (m % n))
  | op => .error (.notArithmetic op)

/-- Arithmetic on doubles; dividing by zero is no fault here. -/
def doubleArithmetic (op : Opcode) (x y : Float) : Except Cause Value :=
  match op with
  | .add => .ok (.double (x + y))
  | .sub => .ok (.double (x - y))
  | .mul => .ok (.double (x * y))
  | .div => .ok (.double (x / y))
  | .mod => .ok (.double (Decimal.remainder x y))
  | op => .error (.notArithmetic op)

/-- The text that a value brings to a concatenation. -/
def piece? : Value → Option String
  | .string s => some s
  | .char c => some (String.ofList [c])
  | _ => none

/-- Sum, difference, product, quotient and remainder. Strings and characters can be added, in any
combination, to give a string. -/
def arithmetic (op : Opcode) (a b : Value) : Except Cause Value :=
  match a, b with
  | .int m, .int n => intArithmetic op m n
  | .double x, .double y => doubleArithmetic op x y
  | a, b =>
    match op, a.piece?, b.piece? with
    | .add, some s, some t => .ok (.string (s ++ t))
    | op, _, _ => .error (.operands op a.tag b.tag)

def negate : Value → Except Cause Value
  | .int n => .ok (.int (-n))
  | .double x => .ok (.double (-x))
  | v => .error (.operand .neg v.tag)

/-! ## Logic -/

/-- Conjunction and disjunction. -/
def logic (op : Opcode) (a b : Value) : Except Cause Value :=
  match op, a, b with
  | .and, .bool p, .bool q => .ok (.bool (p && q))
  | .or, .bool p, .bool q => .ok (.bool (p || q))
  | op, a, b => .error (.operands op a.tag b.tag)

def complement : Value → Except Cause Value
  | .bool p => .ok (.bool !p)
  | v => .error (.operand .not v.tag)

/-! ## Comparison -/

/-- The order of two doubles, if they have one: a NaN has none. -/
def doubleOrder (x y : Float) : Option Ordering :=
  if x < y then some .lt else if x == y then some .eq else if y < x then some .gt else none

/-- The order of two strings, decided by the octets of their UTF-8 encodings. -/
def stringOrder (s t : String) : Ordering :=
  List.compareLex compare s.toUTF8.toList t.toUTF8.toList

/-- The order of two values of one tag that has an order; inside, `none` is the missing order of two
doubles. -/
def order? : Value → Value → Option (Option Ordering)
  | .int m, .int n => some (some (compare m n))
  | .double x, .double y => some (doubleOrder x y)
  | .string s, .string t => some (some (stringOrder s t))
  | .char c, .char d => some (some (compare c d))
  | _, _ => none

def holds? (op : Opcode) (o : Ordering) : Option Bool :=
  match op with
  | .cmpLt => some o.isLT
  | .cmpLe => some o.isLE
  | .cmpGt => some o.isGT
  | .cmpGe => some o.isGE
  | _ => none

/-- The six comparisons. Equality is defined on all values; an order only on two numbers of one tag,
two characters and two strings. Doubles without an order satisfy no comparison but `cmpNe`. -/
def comparison (op : Opcode) (a b : Value) : Except Cause Value :=
  match op with
  | .cmpEq => .ok (.bool (a.same b))
  | .cmpNe => .ok (.bool !(a.same b))
  | op =>
    match order? a b with
    | none => .error (.operands op a.tag b.tag)
    | some none => .ok (.bool false)
    | some (some o) =>
      match holds? op o with
      | some result => .ok (.bool result)
      | none => .error (.notComparison op)

/-! ## Strings and conversions -/

/-- The number of characters of a string. -/
def length : Value → Except Cause Value
  | .string s => .ok (.int (Int64.ofNat s.length))
  | v => .error (.operand .len v.tag)

/-- The character of a string at an index that counts from zero. -/
def charAt (index string : Value) : Except Cause Value :=
  match index, string with
  | .int i, .string s =>
    let found := if 0 ≤ i.toInt then s.toList[i.toInt.toNat]? else none
    match found with
    | some c => .ok (.char c)
    | none => .error (.indexOutOfRange i s.length)
  | index, string => .error (.operands .getChar index.tag string.tag)

/-- A value as a whole number: doubles are cut towards zero and kept within the range, strings are
read as signed decimals with blanks around them allowed. -/
def toInt : Value → Except Cause Value
  | .int n => .ok (.int n)
  | .double x => .ok (.int x.toInt64)
  | .string s =>
    match Decimal.int64OfText? (Text.trim s.toList) with
    | some n => .ok (.int n)
    | none => .error (.notInt s)
  | v => .error (.operand .toInt v.tag)

/-- A value as a double: strings are read as decimals with blanks around them allowed. -/
def toDouble : Value → Except Cause Value
  | .double x => .ok (.double x)
  | .int n => .ok (.double n.toFloat)
  | .string s =>
    match Decimal.floatOfText? (Text.trim s.toList) with
    | some x => .ok (.double x)
    | none => .error (.notDouble s)
  | v => .error (.operand .toDouble v.tag)

/-- A value as a string. Objects have none: their ids are not for programs to see. -/
def toText : Value → Except Cause Value
  | .object _ => .error (.operand .toText .object)
  | v => .ok (.string v.text)

end RecordMachine.Value
