/-!
# Decimal integers

Reading whole numbers from text. A digit is one of the ten ASCII digits; leading zeros are allowed
and nothing else, no blank and no separator, may stand among the digits.
-/

namespace RecordMachine.Decimal

/-- The number that a non-empty run of digits denotes. -/
def natOfDigits? (text : List Char) : Option Nat :=
  if text ≠ [] ∧ text.all Char.isDigit then some (Nat.ofDigitChars 10 text 0) else none

/-- Splits an optional leading sign off; the flag says that the sign was a minus. -/
def splitSign : List Char → Bool × List Char
  | '+' :: rest => (false, rest)
  | '-' :: rest => (true, rest)
  | text => (false, text)

/-- A signed decimal: an optional sign, then digits. -/
def intOfText? (text : List Char) : Option Int :=
  let (negative, digits) := splitSign text
  (natOfDigits? digits).map fun n => if negative then -(n : Int) else n

def int64Min : Int := -(1 <<< 63 : Nat)

def int64Max : Int := (1 <<< 63 : Nat) - 1

def int64OfText? (text : List Char) : Option Int64 :=
  (intOfText? text).bind fun n =>
    if int64Min ≤ n ∧ n ≤ int64Max then some (Int64.ofInt n) else none

/-! ## Unsigned words -/

/-- The number of values of a 64-bit word: unsigned words lie below it. -/
def wordLimit : Nat := 1 <<< 64

/-- Why a text is not an unsigned word. -/
inductive WordError where
  | empty
  | invalidDigit
  | tooLarge
deriving DecidableEq

def WordError.message : WordError → String
  | .empty => "cannot parse integer from empty string"
  | .invalidDigit => "invalid digit found in string"
  | .tooLarge => "number too large to fit in target type"

/-- Reads digits onto the number read so far, stopping at the first one that is no digit or that
takes the number out of range. Of two faults the one further left is reported. -/
def wordOfDigits : Nat → List Char → Except WordError Nat
  | value, [] => .ok value
  | value, c :: rest =>
    if c.isDigit then
      let next := value * 10 + (c.toNat - '0'.toNat)
      if next < wordLimit then wordOfDigits next rest else .error .tooLarge
    else .error .invalidDigit

/-- Reads an unsigned 64-bit word: an optional plus sign, then at least one digit. -/
def wordOfText : List Char → Except WordError Nat
  | [] => .error .empty
  | ['+'] => .error .invalidDigit
  | '+' :: digits => wordOfDigits 0 digits
  | digits => wordOfDigits 0 digits

end RecordMachine.Decimal
