import RecordMachine.Decimal.Integer

/-!
# Reading doubles

A decimal with an optional fraction and exponent denotes the nearest double. The two infinities and
the number that is none may be spelled out, in any mixture of cases.
-/

namespace RecordMachine.Decimal

/-- The decimal `digits * 10 ^ exponent`, with its sign. -/
structure Token where
  negative : Bool
  digits : Nat
  exponent : Int

/-- The double nearest to a decimal. Magnitudes far beyond the range of doubles are decided by their
leading digit alone, so that no large power of ten is computed for them. -/
def Token.toFloat (t : Token) : Float :=
  let leading : Int := (Nat.toDigits 10 t.digits).length + t.exponent
  let magnitude : Float :=
    if t.digits = 0 || leading < -400 then 0.0
    else if 400 < leading then 1.0 / 0.0
    else Float.ofScientific t.digits (t.exponent < 0) t.exponent.natAbs
  if t.negative then -magnitude else magnitude

/-- Splits a text after its longest run of digits. -/
def spanDigits (text : List Char) : List Char × List Char :=
  text.span Char.isDigit

/-- Reads the exponent part, if there is one; nothing may follow it. -/
def exponentOfText? : List Char → Option Int
  | [] => some 0
  | c :: rest => if c = 'e' ∨ c = 'E' then intOfText? rest else none

/-- Reads an unsigned decimal: digits with an optional point anywhere among them, at least one digit
in all, then an optional exponent. -/
def unsignedToken? (negative : Bool) (text : List Char) : Option Token :=
  let (whole, rest) := spanDigits text
  let (fraction, rest) := match rest with
    | '.' :: more => spanDigits more
    | other => ([], other)
  match natOfDigits? (whole ++ fraction), exponentOfText? rest with
  | some digits, some exponent => some ⟨negative, digits, exponent - fraction.length⟩
  | _, _ => none

def floatOfText? (text : List Char) : Option Float :=
  let (negative, body) := splitSign text
  let word := String.ofList (body.map Char.toLower)
  if word = "inf" || word = "infinity" then
    some (if negative then -(1.0 / 0.0) else 1.0 / 0.0)
  else if word = "nan" then some (0.0 / 0.0)
  else (unsignedToken? negative body).map Token.toFloat

end RecordMachine.Decimal
