import Mathlib.Data.Nat.Digits.Defs
import RecordMachine.Value.Operations
import RecordMachine.Proofs.Text.Separation
import RecordMachine.Proofs.Text.Trimming

/-!
# Numerals

Which texts are numerals is said here by a grammar: digits (`Decimal.Denotes`), possibly after a
sign (`Decimal.IsSigned`), possibly between blanks and of a number that fits into a word
(`Value.Spells`). Converting a string to a whole number accepts exactly these
(`Value.toInt_eq_ok_iff`), and among them are the texts that whole numbers are printed as
(`Value.spells_text`).
-/

namespace RecordMachine

/-! ## Signed decimals -/

namespace Decimal

/-- The digits, the most significant one first, denote the number. -/
structure Denotes (digits : List Char) (n : Nat) : Prop where
  nonempty : digits ≠ []
  digit : ∀ c ∈ digits, c.isDigit = true
  value : Nat.ofDigits 10 (digits.reverse.map fun c => c.toNat - '0'.toNat) = n

/-- The text is a signed decimal of this value. -/
inductive IsSigned : List Char → Int → Prop where
  | bare {digits : List Char} {n : Nat} : Denotes digits n → IsSigned digits n
  | plus {digits : List Char} {n : Nat} : Denotes digits n → IsSigned ('+' :: digits) n
  | minus {digits : List Char} {n : Nat} : Denotes digits n → IsSigned ('-' :: digits) (-n)

/-- Horner's rule from the left sums up the digits by their places. -/
theorem ofDigitChars_eq_ofDigits (digits : List Char) :
    Nat.ofDigitChars 10 digits 0 =
      Nat.ofDigits 10 (digits.reverse.map fun c => c.toNat - '0'.toNat) := by
  rw [Nat.ofDigits_eq_foldr, List.foldr_map, List.foldr_reverse, Nat.ofDigitChars_eq_foldl]
  congr 1
  funext n c
  exact Nat.add_comm _ _

/-- Reading digits succeeds exactly if they denote the number. -/
theorem natOfDigits?_eq_some_iff {digits : List Char} {n : Nat} :
    natOfDigits? digits = some n ↔ Denotes digits n := by
  unfold natOfDigits?
  rw [ofDigitChars_eq_ofDigits, Option.ite_none_right_eq_some, Option.some.injEq, List.all_eq_true]
  constructor
  · rintro ⟨⟨hne, hdigit⟩, hvalue⟩
    exact ⟨hne, hdigit, hvalue⟩
  · intro h
    exact ⟨⟨h.nonempty, h.digit⟩, h.value⟩

/-- Digits do not begin with a sign. -/
theorem Denotes.head_isDigit {c : Char} {rest : List Char} {n : Nat} (h : Denotes (c :: rest) n) :
    c.isDigit = true :=
  h.digit c List.mem_cons_self

theorem isSigned_plus {rest : List Char} {z : Int} :
    IsSigned ('+' :: rest) z ↔ ∃ n : Nat, Denotes rest n ∧ n = z := by
  constructor
  · rintro (h | h)
    · exact absurd h.head_isDigit (by decide)
    · exact ⟨_, h, rfl⟩
  · rintro ⟨n, h, rfl⟩
    exact .plus h

theorem isSigned_minus {rest : List Char} {z : Int} :
    IsSigned ('-' :: rest) z ↔ ∃ n : Nat, Denotes rest n ∧ -n = z := by
  constructor
  · rintro (h | h | h)
    · exact absurd h.head_isDigit (by decide)
    · exact ⟨_, h, rfl⟩
  · rintro ⟨n, h, rfl⟩
    exact .minus h

theorem isSigned_of_ne_sign {text : List Char} {z : Int} (hplus : ∀ rest, text ≠ '+' :: rest)
    (hminus : ∀ rest, text ≠ '-' :: rest) :
    IsSigned text z ↔ ∃ n : Nat, Denotes text n ∧ n = z := by
  constructor
  · rintro (h | h | h)
    · exact ⟨_, h, rfl⟩
    · exact absurd rfl (hplus _)
    · exact absurd rfl (hminus _)
  · rintro ⟨n, h, rfl⟩
    exact .bare h

/-- Reading succeeds exactly on the signed decimals. -/
theorem intOfText?_eq_some_iff {text : List Char} {z : Int} :
    intOfText? text = some z ↔ IsSigned text z := by
  -- Reading splits off the sign, reads the digits and puts the sign back.
  have hread : intOfText? text = some z ↔
      ∃ n, Denotes (splitSign text).2 n ∧ (if (splitSign text).1 then -(n : Int) else n) = z := by
    unfold intOfText?
    simp [Option.bind_eq_some_iff, natOfDigits?_eq_some_iff]
  rw [hread]
  unfold splitSign
  split
  · exact isSigned_plus.symm
  · exact isSigned_minus.symm
  · next hplus hminus => exact (isSigned_of_ne_sign hplus hminus).symm

/-- Reading a word succeeds exactly on the signed decimals in its range. -/
theorem int64OfText?_eq_some_iff {text : List Char} {n : Int64} :
    int64OfText? text = some n ↔ IsSigned text n.toInt := by
  unfold int64OfText?
  simp only [Option.bind_eq_some_iff, Option.ite_none_right_eq_some, Option.some.injEq,
    intOfText?_eq_some_iff]
  constructor
  · -- A number in range is that of its word.
    rintro ⟨z, hz, ⟨hlow, hhigh⟩, rfl⟩
    rw [Int64.toInt_ofInt_of_le hlow (Int.lt_of_le_sub_one hhigh)]
    exact hz
  · intro h
    refine ⟨n.toInt, h, ⟨n.le_toInt, Int.le_sub_one_of_lt n.toInt_lt⟩, Int64.ofInt_toInt n⟩

end Decimal

/-! ## Conversion -/

namespace Text

/-- A character of a printed number is not blank. -/
theorem isBlank_of_isDigit {c : Char} (h : c.isDigit = true) : isBlank c = false := by
  have hrange : 48 ≤ c.toNat ∧ c.toNat ≤ 57 := Char.isDigit_iff_toNat.1 h
  simp only [isBlank, blankRanges, List.any_cons, List.any_nil, Bool.or_false, Bool.or_eq_false_iff,
    Bool.and_eq_false_iff, decide_eq_false_iff_not]
  omega

theorem isBlank_of_mem_toString_int {n : Int} {c : Char} (h : c ∈ (toString n).toList) :
    isBlank c = false := by
  rcases mem_toString_int h with rfl | hdigit
  · decide
  · exact isBlank_of_isDigit hdigit

end Text

namespace Value

/-- Without the blanks around it, the text is a signed decimal of this value, which fits into a
word. -/
def Spells (s : String) (z : Int) : Prop :=
  ∃ core, Text.Trims s.toList core ∧ Decimal.IsSigned core z ∧
    Int64.minValue.toInt ≤ z ∧ z ≤ Int64.maxValue.toInt

/-- A string spells the number of a word exactly if its core is read as this word. -/
theorem spells_toInt_iff {s : String} {n : Int64} :
    Spells s n.toInt ↔ Decimal.int64OfText? (Text.trim s.toList) = some n := by
  rw [Decimal.int64OfText?_eq_some_iff]
  constructor
  · rintro ⟨core, htrims, hsigned, -⟩
    rw [← Text.trims_iff.1 htrims]
    exact hsigned
  · intro hsigned
    exact ⟨_, Text.trims_trim _, hsigned, n.minValue_le_toInt, n.toInt_le⟩

/-- Conversion gives the number that the string spells. -/
theorem toInt_eq_ok_iff {s : String} {n : Int64} :
    toInt (.string s) = .ok (.int n) ↔ Spells s n.toInt := by
  rw [spells_toInt_iff, toInt]
  cases Decimal.int64OfText? (Text.trim s.toList) <;> simp

/-- Conversion fails for a string that spells no number. -/
theorem toInt_eq_error_iff {s : String} :
    toInt (.string s) = .error (.notInt s) ↔ ¬∃ z, Spells s z := by
  -- A number that fits into a word is the number of one.
  have hword : (∃ z, Spells s z) ↔ ∃ n : Int64, Spells s n.toInt := by
    constructor
    · rintro ⟨z, core, htrims, hsigned, hlow, hhigh⟩
      have hz : (Int64.ofIntLE z hlow hhigh).toInt = z := Int64.toInt_ofIntLE
      refine ⟨.ofIntLE z hlow hhigh, ?_⟩
      rw [hz]
      exact ⟨core, htrims, hsigned, hlow, hhigh⟩
    · rintro ⟨n, hn⟩
      exact ⟨_, hn⟩
  rw [toInt]
  simp only [hword, spells_toInt_iff]
  cases Decimal.int64OfText? (Text.trim s.toList) <;> simp

/-- A whole number is printed as a signed decimal of its value. -/
theorem isSigned_toString (z : Int) : Decimal.IsSigned (toString z).toList z := by
  -- The magnitude is printed as digits that denote it.
  have hdenotes : ∀ n : Nat, Decimal.Denotes (toString n).toList n := by
    intro n
    obtain ⟨c, rest, hcons, -⟩ := Text.exists_cons_toString n
    refine ⟨hcons ▸ List.cons_ne_nil c rest, fun _ => Text.isDigit_of_mem_toString, ?_⟩
    rw [← Decimal.ofDigitChars_eq_ofDigits, Text.ofDigitChars_toString]
  rw [Text.toList_toString_int]
  split
  · next hneg =>
    have hminus := Decimal.IsSigned.minus (hdenotes z.natAbs)
    rwa [show -(z.natAbs : Int) = z by omega] at hminus
  · next hnonneg =>
    have hbare := Decimal.IsSigned.bare (hdenotes z.natAbs)
    rwa [show (z.natAbs : Int) = z by omega] at hbare

/-- A whole number is printed as a numeral of it, and blanks around a numeral do not matter. -/
theorem spells_text (n : Int64) {before after : String}
    (hbefore : ∀ c ∈ before.toList, Text.isBlank c = true)
    (hafter : ∀ c ∈ after.toList, Text.isBlank c = true) :
    Spells (before ++ text (.int n) ++ after) n.toInt := by
  refine ⟨(text (.int n)).toList, ⟨⟨before.toList, after.toList, ?_, hbefore, hafter⟩, ?_, ?_⟩,
    isSigned_toString _, n.minValue_le_toInt, n.toInt_le⟩
  · rw [String.toList_append, String.toList_append]
  · exact fun c hc => Text.isBlank_of_mem_toString_int (List.mem_of_mem_head? hc)
  · exact fun c hc => Text.isBlank_of_mem_toString_int (List.mem_of_mem_getLast? hc)

/-- Converting a string to a whole number accepts exactly the numerals and inverts printing. It
gives a number exactly if the string spells this number, and otherwise fails as an invalid
conversion; and what is printed for a number is converted to this number, whatever blanks stand
around it. -/
theorem toInt_exact :
    (∀ s : String,
      (∀ n : Int64, toInt (.string s) = .ok (.int n) ↔ Spells s n.toInt) ∧
      (toInt (.string s) = .error (.notInt s) ↔ ¬∃ z, Spells s z) ∧
      (Cause.notInt s).kind = .invalidConversion) ∧
    ∀ n : Int64, ∃ t, toText (.int n) = .ok (.string t) ∧
      ∀ before after : String, (∀ c ∈ before.toList, Text.isBlank c = true) →
        (∀ c ∈ after.toList, Text.isBlank c = true) →
          toInt (.string (before ++ t ++ after)) = .ok (.int n) := by
  refine ⟨fun s => ⟨fun n => toInt_eq_ok_iff, toInt_eq_error_iff, rfl⟩, fun n => ⟨_, rfl, ?_⟩⟩
  intro before after hbefore hafter
  exact toInt_eq_ok_iff.2 (spells_text n hbefore hafter)

/-- The least number is read back between blanks that are not all of ASCII. -/
theorem toInt_exact_least :
    (∀ c ∈ "\u3000\t".toList, Text.isBlank c = true) ∧
    (∀ c ∈ "\u00a0\n".toList, Text.isBlank c = true) ∧
    toInt (.string "\u3000\t-9223372036854775808\u00a0\n") = .ok (.int .minValue) := by
  have hbefore : ∀ c ∈ "\u3000\t".toList, Text.isBlank c = true := by
    rw [← List.all_eq_true]
    decide
  have hafter : ∀ c ∈ "\u00a0\n".toList, Text.isBlank c = true := by
    rw [← List.all_eq_true]
    decide
  obtain ⟨t, htext, hread⟩ := toInt_exact.2 .minValue
  have ht : t = "-9223372036854775808" := by
    cases htext
    decide
  subst ht
  exact ⟨hbefore, hafter, hread _ _ hbefore hafter⟩

end Value

end RecordMachine
