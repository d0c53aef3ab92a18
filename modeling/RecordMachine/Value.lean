import RecordMachine.Decimal.Layout
import RecordMachine.Text.Quoted

/-!
# Values

What an operand stack, a variable slot and a field of a record hold. A value carries its tag, and
every operation decides by the tags of its operands.
-/

namespace RecordMachine

/-- Names a record object of the heap. -/
abbrev ObjectId := Nat

/-- A value of the running program. -/
inductive Value where
  | int (n : Int64)
  | double (x : Float)
  | bool (b : Bool)
  | char (c : Char)
  | string (s : String)
  | object (id : ObjectId)
  | nil
deriving DecidableEq, Inhabited

/-- The kinds of values. -/
inductive Tag where
  | int | double | bool | char | string | object | nil
deriving DecidableEq

def Tag.name : Tag → String
  | .int => "int"
  | .double => "double"
  | .bool => "bool"
  | .char => "char"
  | .string => "string"
  | .object => "object"
  | .nil => "nil"

namespace Value

def tag : Value → Tag
  | .int _ => .int
  | .double _ => .double
  | .bool _ => .bool
  | .char _ => .char
  | .string _ => .string
  | .object _ => .object
  | .nil => .nil

def isNil : Value → Bool
  | .nil => true
  | _ => false

/-- Equality as programs see it: values of one tag are compared by content, doubles as numbers, so
that the two zeros are equal and a NaN differs from itself; values of two tags are never equal. -/
def same : Value → Value → Bool
  | .int m, .int n => m == n
  | .double x, .double y => x == y
  | .bool a, .bool b => a == b
  | .char c, .char d => c == d
  | .string s, .string t => s == t
  | .object i, .object j => i == j
  | .nil, .nil => true
  | _, _ => false

/-- Doubles are written plainly from `0.0001` up to below `10 ^ 16`, with a fractional digit kept,
and otherwise with an exponent that carries no plus sign. -/
def doubleLayout : Decimal.Layout where
  plainFrom := -4
  plainBelow := 16
  plusSign := false
  tie := .up
  nan := "NaN"
  infinity := "inf"
  negativeInfinity := "-inf"

/-- The text of a value, as a program prints it. -/
def text : Value → String
  | .int n => toString n.toInt
  | .double x => Decimal.floatText doubleLayout x
  | .bool b => if b then "true" else "false"
  | .char c => String.ofList [c]
  | .string s => s
  | .object id => toString id
  | .nil => "nil"

/-- The text of a value as a literal of a dump: characters and strings are quoted. -/
def literal : Value → String
  | .char c => Text.quoted '\'' [c]
  | .string s => Text.quoted '"' s.toList
  | v => v.text

/-- Values between brackets, separated by commas. -/
def listText (values : List Value) : String :=
  "[" ++ ", ".intercalate (values.map text) ++ "]"

end Value

end RecordMachine
