import RecordMachine.Decimal.Shortest

/-!
# Layouts of doubles

The digits of a double are fixed by `shortest`; a `Layout` says how they are set: which magnitudes
are written out plainly, how an exponent is written, and the texts of what is no number.
-/

namespace RecordMachine.Decimal

/-- The decisions of one number format. -/
structure Layout where
  /-- The least exponent of a leading digit that is written plainly. -/
  plainFrom : Int
  /-- The least greater exponent that is not. -/
  plainBelow : Int
  /-- Whether an exponent that is not negative carries a plus sign. -/
  plusSign : Bool
  tie : Tie
  nan : String
  infinity : String
  negativeInfinity : String

/-- The digits with a point before the last `places` of them; there is always a digit on either
side of the point. -/
def pointText (digits : List Char) (places : Nat) : List Char :=
  let padded := List.replicate (places + 1 - digits.length) '0' ++ digits
  padded.take (padded.length - places) ++ '.' :: padded.drop (padded.length - places)

/-- A decimal written out: whole numbers keep one fractional digit. -/
def plainText (s : Scientific) : List Char :=
  let digits := Nat.toDigits 10 s.digits
  if 0 ≤ s.exponent then digits ++ List.replicate s.exponent.toNat '0' ++ ['.', '0']
  else pointText digits (-s.exponent).toNat

/-- The exponent of the leading digit. -/
def Scientific.leading (s : Scientific) : Int :=
  (Nat.toDigits 10 s.digits).length - 1 + s.exponent

/-- A decimal with one digit before the point, without a needless fraction, and its exponent. -/
def exponentText (plusSign : Bool) (s : Scientific) : List Char :=
  let mantissa := match Nat.toDigits 10 s.digits with
    | [] => []
    | [d] => [d]
    | d :: rest => d :: '.' :: rest
  let exponent := s.leading
  let sign := if exponent < 0 then ['-'] else if plusSign then ['+'] else []
  mantissa ++ 'e' :: (sign ++ Nat.toDigits 10 exponent.natAbs)

def floatText (layout : Layout) (x : Float) : String :=
  match Shape.ofFloat x with
  | .nan => layout.nan
  | .infinite negative => if negative then layout.negativeInfinity else layout.infinity
  | .finite negative b =>
    let sign := if negative then ['-'] else []
    if b.significand = 0 then String.ofList (sign ++ ['0', '.', '0'])
    else
      let s := shortest layout.tie b
      let plain := layout.plainFrom ≤ s.leading ∧ s.leading < layout.plainBelow
      String.ofList (sign ++ if plain then plainText s else exponentText layout.plusSign s)

end RecordMachine.Decimal
