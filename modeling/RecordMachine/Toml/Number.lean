import RecordMachine.Decimal.Reading
import RecordMachine.Text.Hexadecimal
import RecordMachine.Toml.Basic

/-!
# Reading TOML numbers

Integers in four bases, and floats, which are decimals with a fraction or an exponent or one of the
words for what no decimal denotes. Single underscores may stand between digits.
-/

namespace RecordMachine.Toml

/-! ## Integers -/

/-- The digits of a numeral in which single underscores may stand between digits. -/
def ungroup? : List Char → Option (List Char)
  | [] => none
  | [c] => if c = '_' then none else some [c]
  | c :: '_' :: rest => if c = '_' then none else (ungroup? rest).map (c :: ·)
  | c :: rest => if c = '_' then none else (ungroup? rest).map (c :: ·)

def readDigits (base : Nat) (text : List Char) : Option (List Char × Nat × List Char) := do
  let isPart := fun c => c == '_' || (Text.digitsValue? base [c]).isSome
  let digits ← ungroup? (text.takeWhile isPart)
  let n ← Text.digitsValue? base digits
  return (digits, n, text.dropWhile isPart)

/-- Reads a numeral in base ten, which has no needless zero in front. -/
def readDecimal (text : List Char) : Option (Nat × List Char) := do
  let (digits, n, rest) ← readDigits 10 text
  if digits.head? = some '0' ∧ digits.length ≠ 1 then none else some (n, rest)

def readBased (base : Nat) (text : List Char) : Option (Nat × List Char) := do
  let (_, n, rest) ← readDigits base text
  return (n, rest)

/-- Reads an integer. Only a decimal one has a sign. -/
def readInteger (text : List Char) : Option (Int × List Char) := do
  let (n, rest) ←
    match text with
    | '0' :: 'x' :: rest => (readBased 16 rest).map fun (n, rest) => ((n : Int), rest)
    | '0' :: 'o' :: rest => (readBased 8 rest).map fun (n, rest) => ((n : Int), rest)
    | '0' :: 'b' :: rest => (readBased 2 rest).map fun (n, rest) => ((n : Int), rest)
    | '-' :: rest => (readDecimal rest).map fun (n, rest) => (-(n : Int), rest)
    | '+' :: rest => (readDecimal rest).map fun (n, rest) => ((n : Int), rest)
    | rest => (readDecimal rest).map fun (n, rest) => ((n : Int), rest)
  if -(integerMax : Int) - 1 ≤ n ∧ n ≤ integerMax then some (n, rest) else none

/-! ## Floats -/

def readFraction : List Char → Option (List Char × List Char)
  | '.' :: rest => (readDigits 10 rest).map fun (digits, _, rest) => (digits, rest)
  | rest => some ([], rest)

def readExponent : List Char → Option (Option Int × List Char)
  | c :: rest =>
    if c = 'e' ∨ c = 'E' then do
      let (negative, rest) := Decimal.splitSign rest
      let (_, n, rest) ← readDigits 10 rest
      return (some (if negative then -(n : Int) else n), rest)
    else some (none, c :: rest)
  | [] => some (none, [])

/-- Reads a float after its sign. A decimal too great for a double is refused if it is positive. -/
def readUnsignedFloat (negative : Bool) : List Char → Option (Float × List Char)
  | 'i' :: 'n' :: 'f' :: rest => some (if negative then -(1.0 / 0.0) else 1.0 / 0.0, rest)
  | 'n' :: 'a' :: 'n' :: rest => some (0.0 / 0.0, rest)
  | text => do
    let (whole, rest) ← readDecimal text
    let (fraction, rest) ← readFraction rest
    let (exponent, rest) ← readExponent rest
    let x := Decimal.Token.toFloat
      ⟨negative, Nat.ofDigitChars 10 fraction whole, exponent.getD 0 - fraction.length⟩
    if (fraction = [] ∧ exponent = none) ∨ x == 1.0 / 0.0 then none else some (x, rest)

def readFloat (text : List Char) : Option (Float × List Char) :=
  let (negative, text) := Decimal.splitSign text
  readUnsignedFloat negative text

end RecordMachine.Toml
