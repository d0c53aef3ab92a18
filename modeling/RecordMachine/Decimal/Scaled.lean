import RecordMachine.Decimal.Integer

/-!
# Scaled significands

A decimal can be read with little arithmetic: as many of its digits as fit a 64-bit word make a
significand, and a power of ten puts the point in its place by one multiplication or division of
doubles. The significand, the power and the result are each rounded, so what comes out lies near the
decimal but need not be the double nearest to it.
-/

namespace RecordMachine.Decimal

/-- The number `significand * 10 ^ exponent`, whose significand fits a 64-bit word. -/
structure Scaled where
  significand : Nat
  exponent : Int
deriving DecidableEq

/-- Appends digits to a significand up to the first one with which it would not fit a word, and
returns the digits from there on. -/
def takeDigits (significand : Nat) : List Char → Nat × List Char
  | [] => (significand, [])
  | c :: rest =>
    let next := significand * 10 + (c.toNat - '0'.toNat)
    if next < wordLimit then takeDigits next rest else (significand, c :: rest)

/-- The significand of a decimal with the given digits on either side of its point. Digits of the
whole part that do not fit leave their places to the exponent; those of the fraction are dropped. -/
def Scaled.ofDigits (whole fraction : List Char) (exponent : Int) : Scaled :=
  let (significand, wholeLeft) := takeDigits 0 whole
  let (significand, fractionLeft) := takeDigits significand fraction
  ⟨significand, exponent + wholeLeft.length - (fraction.length - fractionLeft.length : Nat)⟩

/-- The exponent of the greatest power of ten that is a double. -/
def powerLimit : Nat := 308

/-- The double nearest to a power of ten. -/
def powerOfTen (n : Nat) : Float :=
  Float.ofScientific 1 false n

/-- Multiplies by a power of ten, unless the product is out of range. -/
def scaleUp? (x : Float) (n : Nat) : Option Float :=
  if n ≤ powerLimit then
    let product := x * powerOfTen n
    if product.isFinite then some product else none
  else if x == 0.0 then some x
  else none

/-- Divides by a power of ten. A power beyond the greatest one is taken in several steps, which end
early at zero. -/
def scaleDown (x : Float) (n : Nat) : Float :=
  if n ≤ powerLimit then x / powerOfTen n
  else if x == 0.0 then x
  else scaleDown (x / powerOfTen powerLimit) (n - powerLimit)
termination_by n
decreasing_by
  have : powerLimit = 308 := rfl
  omega

/-- The double that scaling gives, unless it is out of range. -/
def Scaled.toFloat? (s : Scaled) : Option Float :=
  let x := Float.ofScientific s.significand false 0
  if 0 ≤ s.exponent then scaleUp? x s.exponent.toNat
  else some (scaleDown x s.exponent.natAbs)

end RecordMachine.Decimal
