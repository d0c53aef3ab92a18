import RecordMachine.Decimal.Layout

/-!
# JSON documents

The value of a JSON text. Members keep their order and may repeat a key, because readers of
documents differ in what they make of that. A number without fraction and exponent that fits a
64-bit word, signed or unsigned, stays a whole number; any other number is a double.
-/

namespace RecordMachine

inductive Json where
  | null
  | bool (b : Bool)
  | int (n : Int)
  | double (x : Float)
  | string (s : String)
  | array (items : List Json)
  | object (members : List (String × Json))
deriving Inhabited

namespace Json

/-- The first value under a key of an object. -/
def member? (key : String) : Json → Option Json
  | .object members => (members.find? fun m => m.1 == key).map Prod.snd
  | _ => none

/-- Doubles are written plainly from `0.00001` up to below `10 ^ 16`, with a fractional digit kept,
and otherwise with a signed exponent. What is no number is `null`. -/
def doubleLayout : Decimal.Layout where
  plainFrom := -5
  plainBelow := 16
  plusSign := true
  tie := .toEven
  nan := "null"
  infinity := "null"
  negativeInfinity := "null"

end Json

end RecordMachine
