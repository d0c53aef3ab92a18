import RecordMachine.Decimal.Binary

/-!
# Rounding and remainders

Two exact operations on the magnitudes of doubles: writing one with a fixed number of decimal
places, and the remainder of a truncating division.
-/

namespace RecordMachine.Decimal

/-- The nearest whole number to `num / den`; a half goes to the even neighbour. -/
def roundDiv (num den : Nat) : Nat :=
  let quotient := num / den
  let rest := 2 * (num % den)
  if den < rest || (rest == den && quotient % 2 == 1) then quotient + 1 else quotient

/-- A whole number of hundredths, written with two decimal places. -/
def hundredthsText (n : Nat) : String :=
  let cents := toString (n % 100)
  toString (n / 100) ++ "." ++ (if n % 100 < 10 then "0" ++ cents else cents)

/-- A number that is not negative, with two decimal places, rounded from its exact value. -/
def twoPlaces (x : Float) : String :=
  match Shape.ofFloat x with
  | .nan => "NaN"
  | .infinite _ => "inf"
  | .finite _ b => hundredthsText (roundDiv (100 * b.numerator) b.denominator)

/-- The remainder of the truncating division of `a` by `b`, for `b` other than zero: both are
brought to the smaller exponent, where they are whole numbers. -/
def Binary.remainder (a b : Binary) : Binary :=
  let exponent := min a.exponent b.exponent
  let whole := fun (c : Binary) => c.significand * Nat.pow 2 (c.exponent - exponent).toNat
  ⟨whole a % whole b, exponent⟩

/-- The remainder of the truncating division of `x` by `y`: it has the sign of `x`, also when it is
zero. There is none of an infinite number, nor by zero. -/
def remainder (x y : Float) : Float :=
  match Shape.ofFloat x, Shape.ofFloat y with
  | .finite _ _, .infinite _ => x
  | .finite negative a, .finite _ b =>
    if b.significand = 0 then 0.0 / 0.0 else (a.remainder b).toFloat negative
  | _, _ => 0.0 / 0.0

end RecordMachine.Decimal
