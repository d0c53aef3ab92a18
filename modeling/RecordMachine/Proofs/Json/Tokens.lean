import Mathlib.Data.List.Forall2
import Mathlib.Data.List.TakeDrop
import RecordMachine.Json.Reader
import RecordMachine.Json.Writer
import RecordMachine.Proofs.Text.Separation

/-!
# Reading strings and whole numbers that were written

A string is read back as it was, whatever characters it has (`readString_escape`): the reader
turns what is written for a character into one part, and the part into the character again. A whole
number is read back if nothing follows that would go on with it (`readNumber_natAbs`).
-/

namespace RecordMachine.Json

/-! ## Strings -/

/-- A part of a string stands for a character. Only control characters go by their numbers. -/
inductive StandsFor (c : Char) : Unit16 → Prop where
  | char : StandsFor c (.char c)
  | control (hc : c.toNat < 0x20) : StandsFor c (.unit c.toNat)

/-- The digits of a control character are read as its number. -/
theorem hexFour?_control {n : Nat} (hn : n < 0x20) :
    hexFour? '0' '0' (Text.hexDigit (n / 16)) (Text.hexDigit n) = some n := by
  revert n
  decide

/-- What is written for a character is read as one part. -/
theorem readUnits_escapeChar (c : Char) :
    ∃ part, StandsFor c part ∧ ∀ text parts rest, readUnits text = some (parts, rest) →
      readUnits (escapeChar c ++ text) = some (part :: parts, rest) := by
  unfold escapeChar
  -- All cases but the last are the escapes of two characters.
  split
  case h_8 hquote hbackslash _ _ _ _ _ =>
    split
    · next hc =>
      refine ⟨.unit c.toNat, .control hc, fun text parts rest h => ?_⟩
      simp only [List.cons_append, List.nil_append, readUnits, hexFour?_control hc, h]
    · next hc =>
      refine ⟨.char c, .char, fun text parts rest h => ?_⟩
      have hplain : ¬(c = '\\' ∨ c.toNat < 0x20) := not_or.2 ⟨hbackslash, hc⟩
      rw [List.singleton_append, readUnits, if_neg hplain, h]
      · rfl
      · exact hquote
      · exact fun _ _ _ _ _ heq _ => hbackslash heq
      · exact fun _ _ heq _ => hbackslash heq
  all_goals
    refine ⟨.char _, .char, fun text parts rest h => ?_⟩
    simp [readUnits, escaped?, h]

/-- A string is read as parts that stand for its characters one by one. Induction on the
characters. -/
theorem readUnits_escape (chars rest : List Char) :
    ∃ parts, List.Forall₂ StandsFor chars parts ∧
      readUnits (chars.flatMap escapeChar ++ '"' :: rest) = some (parts, rest) := by
  induction chars with
  | nil => exact ⟨[], .nil, by simp [readUnits]⟩
  | cons c chars ih =>
    obtain ⟨parts, hparts, hread⟩ := ih
    obtain ⟨part, hpart, hchar⟩ := readUnits_escapeChar c
    refine ⟨part :: parts, .cons hpart hparts, ?_⟩
    rw [List.flatMap_cons, List.append_assoc]
    exact hchar _ _ _ hread

/-- Parts that stand for characters are joined to these characters. -/
theorem joinUnits_of_standsFor {chars : List Char} {parts : List Unit16}
    (h : List.Forall₂ StandsFor chars parts) : joinUnits parts = some chars := by
  induction h with
  | nil => rfl
  | @cons c part chars parts hpart _ ih =>
    cases hpart with
    | char => simp [joinUnits, ih]
    | control hc =>
      -- A control character is no surrogate.
      have hhigh : ¬(0xD800 ≤ c.toNat ∧ c.toNat < 0xDC00) := by omega
      have hlow : ¬(0xDC00 ≤ c.toNat ∧ c.toNat < 0xE000) := by omega
      unfold joinUnits
      rw [if_neg hhigh, if_neg hlow, ih, Char.ofNat_toNat]
      rfl

/-- A string is read back after its opening quote. -/
theorem readString_escape (s : String) (rest : List Char) :
    readString (s.toList.flatMap escapeChar ++ '"' :: rest) = some (s, rest) := by
  obtain ⟨parts, hparts, hread⟩ := readUnits_escape s.toList rest
  simp [readString, hread, joinUnits_of_standsFor hparts]

/-! ## Numbers -/

/-- What may follow a number of a written document. -/
def Follows (rest : List Char) : Prop := ∀ c ∈ rest.head?, c = ',' ∨ c = '\n'

theorem follows_nil : Follows [] := nofun

theorem follows_comma (rest : List Char) : Follows (',' :: rest) := by
  rintro _ ⟨⟩
  exact .inl rfl

theorem follows_newLine (level : Nat) (rest : List Char) : Follows (newLine level ++ rest) := by
  rintro _ ⟨⟩
  exact .inr rfl

/-- The digits of a number end where something follows that may follow it. -/
theorem spanDigits_append {digits rest : List Char} (hdigits : ∀ c ∈ digits, c.isDigit = true)
    (hrest : Follows rest) : Decimal.spanDigits (digits ++ rest) = (digits, rest) := by
  -- Neither a comma nor a line break is a digit.
  have hstop : rest.takeWhile Char.isDigit = [] ∧ rest.dropWhile Char.isDigit = rest := by
    cases rest with
    | nil => exact ⟨rfl, rfl⟩
    | cons c rest =>
      have hc : c.isDigit = false := by
        rcases hrest c rfl with rfl | rfl <;> rfl
      simp [hc]
  rw [Decimal.spanDigits, List.span_eq_takeWhile_dropWhile, List.takeWhile_append_of_pos hdigits,
    List.dropWhile_append_of_pos hdigits, hstop.1, hstop.2, List.append_nil]

/-- No number with several digits starts with a zero, which the reader would refuse. -/
theorem toString_ne_zero_cons (n : Nat) (c : Char) (rest : List Char) :
    (toString n).toList ≠ '0' :: c :: rest := by
  intro h
  rw [Nat.toString_eq_ofList_toDigits, String.toList_ofList] at h
  by_cases hn : n = 0
  · rw [hn] at h
    cases h
  · exact Text.head?_toDigits_ne hn (by rw [h]; rfl)

/-- The numbers that a document keeps as whole numbers. -/
def isWord (n : Int) : Bool := Decimal.int64Min ≤ n && n < Decimal.wordLimit

/-- A whole number is read back after its sign. -/
theorem readNumber_natAbs {n : Int} (hn : isWord n = true) {rest : List Char}
    (hrest : Follows rest) :
    readNumber (n < 0) ((toString n.natAbs).toList ++ rest) = some (.int n, rest) := by
  simp only [isWord, Bool.and_eq_true, decide_eq_true_eq] at hn
  have hspan := spanDigits_append (fun _ => Text.isDigit_of_mem_toString (n := n.natAbs)) hrest
  -- Neither a fraction nor an exponent follows.
  have hfraction : readFraction rest = some ([], rest) := by
    unfold readFraction
    split
    · next more =>
      rcases hrest '.' rfl with hcomma | hbreak
      · cases hcomma
      · cases hbreak
    · rfl
  have hexponent : readExponent rest = some (none, rest) := by
    cases rest with
    | nil => rfl
    | cons c rest =>
      have hc : ¬(c = 'e' ∨ c = 'E') := by
        rcases hrest c rfl with rfl | rfl <;> decide
      rw [readExponent, if_neg hc]
  have hnumber : numberOfParts? (n < 0) (toString n.natAbs).toList [] none = some (.int n) := by
    have hvalue : (if n < 0 then -(n.natAbs : Int) else n.natAbs) = n := by omega
    -- A negative zero would be read as a double.
    have hzero : ¬(n < 0 ∧ n.natAbs = 0) := by omega
    simp only [numberOfParts?, Text.ofDigitChars_toString, decide_eq_true_eq, hvalue]
    rw [if_pos ⟨trivial, trivial, hn.1, hn.2, hzero⟩]
  unfold readNumber
  rw [hspan]
  split
  · next heq =>
    have hempty : Nat.toDigits 10 n.natAbs = [] := by
      simpa using congrArg Prod.fst heq
    exact absurd hempty Nat.toDigits_ne_nil
  · next heq => exact absurd (congrArg Prod.fst heq) (toString_ne_zero_cons _ _ _)
  · next heq =>
    rw [Prod.mk.injEq] at heq
    obtain ⟨rfl, rfl⟩ := heq
    simp only [hfraction, hexponent, hnumber, Option.bind_eq_bind, Option.bind_some,
      Option.pure_def]

end RecordMachine.Json
