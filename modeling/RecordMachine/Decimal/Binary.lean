/-!
# The exact value of a double

A finite double is a whole number times a power of two. Printing, rounding to fixed places and the
remainder of a division are exact integer arithmetic on these two numbers.
-/

namespace RecordMachine.Decimal

/-- The magnitude `significand * 2 ^ exponent` of a finite double. -/
structure Binary where
  significand : Nat
  exponent : Int

/-- A double taken apart. The sign of zero is kept. -/
inductive Shape where
  | nan
  | infinite (negative : Bool)
  | finite (negative : Bool) (magnitude : Binary)

/-- The least exponent of a double: the one of the numbers next to zero. -/
def leastExponent : Int := -1074

/-- Takes a double apart by the fields of its 64-bit encoding. -/
def Shape.ofFloat (x : Float) : Shape :=
  let bits : Nat := x.toBits.toNat
  let negative := Nat.pow 2 63 ≤ bits
  let field : Nat := bits / Nat.pow 2 52 % Nat.pow 2 11
  let fraction := bits % Nat.pow 2 52
  if field = 2047 then
    if fraction = 0 then .infinite negative else .nan
  else if field = 0 then
    .finite negative ⟨fraction, leastExponent⟩
  else
    .finite negative ⟨fraction + Nat.pow 2 52, (field : Int) - 1075⟩

/-- The numerator of the magnitude as a fraction whose denominator is a power of two. -/
def Binary.numerator (b : Binary) : Nat :=
  b.significand * Nat.pow 2 b.exponent.toNat

/-- The power of two under `Binary.numerator`. -/
def Binary.denominator (b : Binary) : Nat :=
  Nat.pow 2 (-b.exponent).toNat

/-- The double with the given sign and magnitude; exact when the magnitude is that of a double. -/
def Binary.toFloat (negative : Bool) (b : Binary) : Float :=
  let x := (Float.ofNat b.significand).scaleB b.exponent
  if negative then -x else x

end RecordMachine.Decimal
