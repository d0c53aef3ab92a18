import Mathlib.Data.Int.ModEq
import RecordMachine.Value.Operations

/-!
# Arithmetic on whole numbers

Whole numbers are words of 64 bits. An operation on them gives the word that its exact result among
the integers *wraps* to, which is the one that differs from it by a multiple of `2 ^ 64` (`Wraps`).
There is no other such word (`Wraps.unique`), and sums, differences and products of integers wrap to
those of the words (`Wraps.add` and its siblings). So what holds among the integers for quotient and
remainder holds among the words, also for the one quotient that is no word: that of the least number
by `-1`.
-/

namespace RecordMachine

/-! ## Wrapping -/

/-- The integer `z` wraps to the word `n`: they are equal modulo the number of words. -/
def Wraps (z : Int) (n : Int64) : Prop := z ≡ n.toInt [ZMOD Decimal.wordLimit]

namespace Wraps

variable {y z : Int} {m n : Int64}

/-- Operations on words are those on integers with a balanced remainder, which wraps. -/
theorem of_bmod (h : n.toInt = z.bmod Decimal.wordLimit) : Wraps z n := by
  unfold Wraps
  rw [h]
  exact Int.bmod_emod.symm

theorem toInt (n : Int64) : Wraps n.toInt n := Int.ModEq.rfl

/-- No two words differ by a multiple of the number of words. -/
theorem unique (hm : Wraps z m) (hn : Wraps z n) : m = n := by
  apply Int64.toInt_inj.1
  -- Two words are less than the number of words apart, so the multiple is zero.
  obtain ⟨k, hk⟩ := Int.modEq_iff_dvd.1 (hm.symm.trans hn)
  have hlimit : (Decimal.wordLimit : Int) = 2 ^ 64 := by decide
  have hlow := m.le_toInt
  have hhigh := m.toInt_lt
  have hlow' := n.le_toInt
  have hhigh' := n.toInt_lt
  rw [hlimit] at hk
  omega

/-- Sums of integers wrap to sums of words. -/
theorem add (hm : Wraps y m) (hn : Wraps z n) : Wraps (y + z) (m + n) :=
  (Int.ModEq.add hm hn).trans (of_bmod (Int64.toInt_add m n))

theorem sub (hm : Wraps y m) (hn : Wraps z n) : Wraps (y - z) (m - n) :=
  (Int.ModEq.sub hm hn).trans (of_bmod (Int64.toInt_sub m n))

theorem mul (hm : Wraps y m) (hn : Wraps z n) : Wraps (y * z) (m * n) :=
  (Int.ModEq.mul hm hn).trans (of_bmod (Int64.toInt_mul m n))

theorem neg (hn : Wraps z n) : Wraps (-z) (-n) :=
  (Int.ModEq.neg hn).trans (of_bmod (Int64.toInt_neg n))

/-- Quotients wrap only from words: integers that wrap to the same words can have other
quotients. -/
theorem tdiv (m n : Int64) : Wraps (m.toInt.tdiv n.toInt) (m / n) := of_bmod (Int64.toInt_div m n)

/-- A remainder is never out of range. -/
theorem tmod (m n : Int64) : Wraps (m.toInt.tmod n.toInt) (m % n) := by
  rw [← Int64.toInt_mod]
  exact toInt _

end Wraps

namespace Value

/-! ## Quotient and remainder -/

/-- What the quotient `q` and the remainder `r` of two whole numbers are: the quotient is cut
towards zero and wrapped, the remainder is smaller than the divisor and on the side of the dividend,
and together they give the dividend back. -/
structure Division (x y q r : Int64) : Prop where
  quotient : Wraps (x.toInt.tdiv y.toInt) q
  smaller : r.toInt.natAbs < y.toInt.natAbs
  side : r.toInt = 0 ∨ r.toInt.sign = x.toInt.sign
  recombined : ∃ p, arithmetic .mul (.int q) (.int y) = .ok (.int p) ∧
    arithmetic .add (.int p) (.int r) = .ok (.int x)

variable {x y : Int64}

/-- The exact identity between dividend, divisor, quotient and remainder, wrapped. -/
theorem div_mul_add_mod (x y : Int64) : x / y * y + x % y = x := by
  have hwraps := ((Wraps.tdiv x y).mul (.toInt y)).add (.tmod x y)
  rw [Int.tdiv_mul_add_tmod] at hwraps
  exact hwraps.unique (.toInt x)

/-- Quotient and remainder of words are a division, unless the divisor is zero. -/
theorem division (hy : y ≠ 0) : Division x y (x / y) (x % y) where
  quotient := .tdiv x y
  smaller := by
    have hne : y.toInt ≠ 0 := fun h => hy (Int64.toInt_inj.1 h)
    rw [Int64.toInt_mod, Int.natAbs_tmod]
    exact Nat.mod_lt _ (Int.natAbs_pos.2 hne)
  side := by
    -- The remainder has no sign if it is zero, and that of the dividend otherwise.
    rw [Int64.toInt_mod, ← Int.sign_eq_zero_iff_zero, Int.sign_tmod]
    split
    · exact .inl rfl
    · exact .inr rfl
  recombined := by
    refine ⟨x / y * y, rfl, ?_⟩
    show Except.ok (Value.int (x / y * y + x % y)) = _
    rw [div_mul_add_mod]

/-- Division and remainder fail exactly for the divisor zero. -/
theorem arithmetic_eq_error_iff {op : Opcode} (hop : op = .div ∨ op = .mod) :
    (∃ e, arithmetic op (.int x) (.int y) = .error e ∧ e.kind = .divideByZero) ↔ y = 0 := by
  constructor
  · rintro ⟨e, herror, -⟩
    by_contra hy
    rcases hop with rfl | rfl
    · cases herror.symm.trans (if_neg hy)
    · cases herror.symm.trans (if_neg hy)
  · rintro rfl
    rcases hop with rfl | rfl
    · exact ⟨_, rfl, rfl⟩
    · exact ⟨_, rfl, rfl⟩

/-- Arithmetic on whole numbers. Division and remainder fail exactly for the divisor zero, and
otherwise their results are those of a `Division`; the one quotient that is no word wraps to the
dividend. Sum, difference, product and negation are the exact results, wrapped, so that subtraction
undoes addition and negation undoes itself. -/
theorem division_law (x y : Int64) :
    (∀ op, op = .div ∨ op = .mod →
      ((∃ e, arithmetic op (.int x) (.int y) = .error e ∧ e.kind = .divideByZero) ↔ y = 0)) ∧
    (y ≠ 0 → ∃ q r, arithmetic .div (.int x) (.int y) = .ok (.int q) ∧
      arithmetic .mod (.int x) (.int y) = .ok (.int r) ∧ Division x y q r) ∧
    (arithmetic .div (.int .minValue) (.int (-1)) = .ok (.int .minValue) ∧
      arithmetic .mod (.int .minValue) (.int (-1)) = .ok (.int 0)) ∧
    (∃ n, arithmetic .add (.int x) (.int y) = .ok (.int n) ∧ Wraps (x.toInt + y.toInt) n ∧
      arithmetic .sub (.int n) (.int y) = .ok (.int x)) ∧
    (∃ n, arithmetic .sub (.int x) (.int y) = .ok (.int n) ∧ Wraps (x.toInt - y.toInt) n) ∧
    (∃ n, arithmetic .mul (.int x) (.int y) = .ok (.int n) ∧ Wraps (x.toInt * y.toInt) n) ∧
    ∃ n, negate (.int x) = .ok (.int n) ∧ Wraps (-x.toInt) n ∧ negate (.int n) = .ok (.int x) := by
  have hx : Wraps x.toInt x := .toInt x
  have hy : Wraps y.toInt y := .toInt y
  -- Sums, differences, products and negations of words are what the exact results wrap to.
  refine ⟨fun op hop => arithmetic_eq_error_iff hop, ?_, ⟨by decide, by decide⟩,
    ⟨x + y, rfl, hx.add hy, ?_⟩, ⟨x - y, rfl, hx.sub hy⟩, ⟨x * y, rfl, hx.mul hy⟩,
    ⟨-x, rfl, hx.neg, ?_⟩⟩
  · intro hne
    exact ⟨x / y, x % y, if_neg hne, if_neg hne, division hne⟩
  · show Except.ok (Value.int (x + y - y)) = _
    rw [Int64.add_sub_cancel]
  · show Except.ok (Value.int (- -x)) = _
    rw [Int64.neg_neg]

/-- The least number divided by `-1`, a division of numbers of two signs, and one by zero. -/
theorem division_law_extreme :
    ((-1 : Int64) ≠ 0 ∧ Division .minValue (-1) .minValue 0) ∧
    ((2 : Int64) ≠ 0 ∧ Division (-7) 2 (-3) (-1)) ∧
    ∃ e, arithmetic .mod (.int (-7)) (.int 0) = .error e ∧ e.kind = .divideByZero := by
  have hminus : (-1 : Int64) ≠ 0 := by decide
  have htwo : (2 : Int64) ≠ 0 := by decide
  obtain ⟨_, _, hq, hr, hextreme⟩ := (division_law .minValue (-1)).2.1 hminus
  cases hq
  cases hr
  obtain ⟨_, _, hq, hr, hsigned⟩ := (division_law (-7) 2).2.1 htwo
  cases hq
  cases hr
  exact ⟨⟨hminus, hextreme⟩, ⟨htwo, hsigned⟩, ((division_law (-7) 0).1 .mod (.inr rfl)).2 rfl⟩

end Value

end RecordMachine
