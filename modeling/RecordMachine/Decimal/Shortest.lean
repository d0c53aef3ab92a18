import RecordMachine.Decimal.Binary

/-!
# The fewest digits that read back

Every real number near a double rounds to it. Of the decimals among those numbers the shortest are
the ones on the coarsest decimal grid that has a point there, and of these the one nearest to the
double is taken. All of it is exact integer arithmetic.
-/

namespace RecordMachine.Decimal

/-- Which of two equally near decimals is taken. -/
inductive Tie where
  | up
  | toEven
deriving DecidableEq

/-- The positive decimal `digits * 10 ^ exponent`. -/
structure Scientific where
  digits : Nat
  exponent : Int

/-- The numbers that round to a double, as whole numbers of quarters of its last place. The
neighbour below is only half as far when the significand is the least of its exponent. -/
structure Interval where
  low : Nat
  high : Nat
  /-- Whether the ends belong to the interval. -/
  closed : Bool

/-- The interval of a positive magnitude. Ties of reading go to the even significand, so the ends
belong to the interval exactly when the significand is even. -/
def Interval.around (b : Binary) : Interval :=
  let narrow := b.significand = Nat.pow 2 52 ∧ leastExponent < b.exponent
  { low := 4 * b.significand - (if narrow then 1 else 2)
    high := 4 * b.significand + 2
    closed := b.significand % 2 = 0 }

/-- Whether the number `n / unit` of quarters lies in the interval. -/
def Interval.contains (i : Interval) (unit n : Nat) : Bool :=
  if i.closed then decide (i.low * unit ≤ n ∧ n ≤ i.high * unit)
  else decide (i.low * unit < n ∧ n < i.high * unit)

/-- The point of the grid of multiples of `10 ^ exponent` that rounds to `b` and is nearest to it,
if there is one. Only the two neighbours of `b` on the grid can be. -/
def gridPoint? (tie : Tie) (b : Binary) (exponent : Int) : Option Nat :=
  let unit := Nat.pow 2 b.exponent.toNat * Nat.pow 10 (-exponent).toNat
  let step := Nat.pow 2 (-b.exponent).toNat * Nat.pow 10 exponent.toNat
  let below := b.significand * unit / step
  let rest := 2 * (b.significand * unit % step)
  let interval := Interval.around b
  let inside := fun c => c ≠ 0 && interval.contains unit (4 * c * step)
  let upper := decide (step < rest) || (rest == step && (tie == .up || below % 2 == 1))
  match inside below, inside (below + 1) with
  | true, true => some (if upper then below + 1 else below)
  | true, false => some below
  | false, true => some (below + 1)
  | false, false => none

/-- Tries ever finer grids; seventeen digits always suffice. -/
def searchGrid (tie : Tie) (b : Binary) : Nat → Int → Scientific
  | 0, exponent => ⟨(gridPoint? tie b exponent).getD 0, exponent⟩
  | tries + 1, exponent =>
    match gridPoint? tie b exponent with
    | some digits => ⟨digits, exponent⟩
    | none => searchGrid tie b tries (exponent - 1)

/-- A decimal exponent above which no grid has a point near `b`: the magnitude lies below
`2 ^ bits`, and `0.30103` is a little more than the decimal logarithm of two. -/
def coarsestExponent (b : Binary) : Int :=
  let bits : Int := b.significand.log2 + 1 + b.exponent
  if 0 ≤ bits then bits * 30103 / 100000 + 1 else bits * 30102 / 100000 + 1

/-- The shortest decimal that reads back as the positive magnitude `b`. -/
def shortest (tie : Tie) (b : Binary) : Scientific :=
  searchGrid tie b 24 (coarsestExponent b)

end RecordMachine.Decimal
