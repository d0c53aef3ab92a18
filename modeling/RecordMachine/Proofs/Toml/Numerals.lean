import RecordMachine.Toml.Number
import RecordMachine.Toml.Reader
import RecordMachine.Proofs.Text.Separation

/-!
# Integers are read as they were written

The digits of a number, with the end of a line after them, are read as this number
(`readScalar_toDigits`). They could also begin a date, a time or a float, which are tried first: all
of these need a character among or after the digits that is not there.
-/

namespace RecordMachine.Toml

variable {digits : List Char}

/-! ## Dates and times -/

/-- A separator is neither a digit nor the end of the line. -/
theorem skipChar?_digits {c : Char} (hdigit : c.isDigit = false) (hnewline : c ≠ '\n')
    (hdigits : ∀ d ∈ digits, d.isDigit = true) (rest : List Char) :
    skipChar? c (digits ++ '\n' :: rest) = none := by
  cases digits with
  | nil => exact if_neg hnewline.symm
  | cons d digits =>
    have hd := hdigits d List.mem_cons_self
    exact if_neg (Text.ne_of_isDigit hd hdigit)

/-- A field of digits ends among the digits or right after them. -/
theorem readField_digits {count least greatest n : Nat} {rest after : List Char}
    (hdigits : ∀ d ∈ digits, d.isDigit = true)
    (h : readField count least greatest (digits ++ '\n' :: rest) = some (n, after)) :
    ∃ more, (∀ d ∈ more, d.isDigit = true) ∧ after = more ++ '\n' :: rest := by
  unfold readField Decimal.natOfDigits? at h
  dsimp only at h
  split at h
  · next hfield =>
    have hcount : count ≤ digits.length := by
      by_contra hlong
      -- Otherwise the end of the line is in the field.
      have hmem : '\n' ∈ (digits ++ '\n' :: rest).take count := by
        rw [List.take_append, List.mem_append]
        right
        obtain ⟨more, hmore⟩ : ∃ more, count - digits.length = more + 1 :=
          ⟨count - digits.length - 1, by omega⟩
        rw [hmore]
        exact List.mem_cons_self
      exact absurd (List.all_eq_true.1 hfield.2 _ hmem) (by decide)
    obtain ⟨-, -, rfl⟩ : _ ∧ _ ∧ (digits ++ '\n' :: rest).drop count = after := by
      simpa using h
    refine ⟨digits.drop count, fun d hd => hdigits d (List.mem_of_mem_drop hd), ?_⟩
    exact List.drop_append_of_le_length hcount
  · cases h

/-- A date has a dash after its year. -/
theorem readDate_digits (hdigits : ∀ d ∈ digits, d.isDigit = true) (rest : List Char) :
    readDate (digits ++ '\n' :: rest) = none := by
  unfold readDate
  cases hfield : readField 4 0 9999 (digits ++ '\n' :: rest) with
  | none => rfl
  | some found =>
    obtain ⟨more, hmore, hafter⟩ := readField_digits hdigits hfield
    show (skipChar? '-' found.2).bind _ = none
    rw [hafter, skipChar?_digits (by decide) (by decide) hmore]
    rfl

/-- A time has a colon after its hour. -/
theorem readTime_digits (hdigits : ∀ d ∈ digits, d.isDigit = true) (rest : List Char) :
    readTime (digits ++ '\n' :: rest) = none := by
  unfold readTime readClock
  cases hfield : readField 2 0 23 (digits ++ '\n' :: rest) with
  | none => rfl
  | some found =>
    obtain ⟨more, hmore, hafter⟩ := readField_digits hdigits hfield
    show ((skipChar? ':' found.2).bind _).bind _ = none
    rw [hafter, skipChar?_digits (by decide) (by decide) hmore]
    rfl

theorem readMoment_digits (hdigits : ∀ d ∈ digits, d.isDigit = true) (rest : List Char) :
    readMoment (digits ++ '\n' :: rest) = none := by
  unfold readMoment
  rw [readDate_digits hdigits, readTime_digits hdigits]
  rfl

/-! ## Digits -/

/-- Among the digits of other bases, those of ten keep their value. -/
theorem hexValue?_of_isDigit {c : Char} (h : c.isDigit = true) :
    Text.hexValue? c = some (c.toNat - '0'.toNat) :=
  if_pos h

/-- Reading digits to the base ten never fails, and sums them up from the left. -/
theorem foldlM_digits (hdigits : ∀ d ∈ digits, d.isDigit = true) (start : Nat) :
    digits.foldlM (fun n c => do
      let d ← Text.hexValue? c
      if d < 10 then some (n * 10 + d) else none) start
        = some (Nat.ofDigitChars 10 digits start) := by
  induction digits generalizing start with
  | nil => rfl
  | cons c digits ih =>
    rw [List.forall_mem_cons] at hdigits
    have hlt : c.toNat - '0'.toNat < 10 := by
      have hrange := Char.isDigit_iff_toNat.1 hdigits.1
      have hnine : '9'.toNat = '0'.toNat + 9 := rfl
      omega
    rw [List.foldlM_cons, hexValue?_of_isDigit hdigits.1, Nat.ofDigitChars_cons,
      Nat.mul_comm 10 start, ← ih hdigits.2]
    show (if _ then _ else _ : Option Nat).bind _ = _
    rw [if_pos hlt]
    rfl

theorem digitsValue?_digits (hdigits : ∀ d ∈ digits, d.isDigit = true) :
    Text.digitsValue? 10 digits = some (Nat.ofDigitChars 10 digits 0) :=
  foldlM_digits hdigits 0

/-- Digits without a bar between them are one group. -/
theorem ungroup?_digits (hdigits : ∀ d ∈ digits, d.isDigit = true) (hne : digits ≠ []) :
    ungroup? digits = some digits := by
  -- From here on it only matters that there is no bar.
  have hbar : ∀ d ∈ digits, d ≠ '_' := by
    rintro d hd rfl
    exact absurd (hdigits _ hd) (by decide)
  clear hdigits
  induction digits with
  | nil => exact absurd rfl hne
  | cons c digits ih =>
    rw [List.forall_mem_cons] at hbar
    cases digits with
    | nil => exact if_neg hbar.1
    | cons d digits =>
      rw [ungroup?, if_neg hbar.1, ih (List.cons_ne_nil _ _) hbar.2]
      · rfl
      · exact List.cons_ne_nil d digits
      · exact fun _ heq => hbar.2 d List.mem_cons_self (List.cons.inj heq).1

theorem readDigits_digits (hdigits : ∀ d ∈ digits, d.isDigit = true) (hne : digits ≠ [])
    (rest : List Char) :
    readDigits 10 (digits ++ '\n' :: rest) =
      some (digits, Nat.ofDigitChars 10 digits 0, '\n' :: rest) := by
  have hpart : ∀ d ∈ digits, (d == '_' || (Text.digitsValue? 10 [d]).isSome) = true := by
    intro d hd
    rw [digitsValue?_digits (List.forall_mem_singleton.2 (hdigits d hd))]
    exact Bool.or_true _
  -- The end of the line is neither a bar nor a digit.
  have hstop : ('\n' == '_' || (Text.digitsValue? 10 ['\n']).isSome) = false := by decide
  unfold readDigits
  dsimp only
  rw [List.takeWhile_append_of_pos hpart, List.dropWhile_append_of_pos hpart,
    List.takeWhile_cons_of_neg (by rw [hstop]; decide),
    List.dropWhile_cons_of_neg (by rw [hstop]; decide),
    List.append_nil, ungroup?_digits hdigits hne]
  show (Text.digitsValue? 10 digits).bind _ = _
  rw [digitsValue?_digits hdigits]
  rfl

/-! ## Numbers -/

theorem isDigit_toDigits (n : Nat) : ∀ d ∈ Nat.toDigits 10 n, d.isDigit = true :=
  fun _ hd => Nat.isDigit_of_mem_toDigits (by decide) (by decide) hd

/-- A number is written without a needless zero, which would be refused. -/
theorem readDecimal_toDigits (n : Nat) (rest : List Char) :
    readDecimal (Nat.toDigits 10 n ++ '\n' :: rest) = some (n, '\n' :: rest) := by
  have hzero : ¬((Nat.toDigits 10 n).head? = some '0' ∧ (Nat.toDigits 10 n).length ≠ 1) := by
    rintro ⟨hhead, hlength⟩
    by_cases hn : n = 0
    · rw [hn] at hlength
      exact hlength rfl
    · exact Text.head?_toDigits_ne hn hhead
  unfold readDecimal
  rw [readDigits_digits (isDigit_toDigits n) Nat.toDigits_ne_nil, Nat.ofDigitChars_ten_toDigits]
  exact if_neg hzero

/-- What begins with the digits of a number begins with a digit. -/
theorem isDigit_of_toDigits_append {n : Nat} {d : Char} {after more : List Char}
    (h : Nat.toDigits 10 n ++ after = d :: more) : d.isDigit = true := by
  obtain ⟨c, digits, hcons⟩ := List.exists_cons_of_ne_nil (Nat.toDigits_ne_nil (b := 10) (n := n))
  rw [hcons, List.cons_append] at h
  rw [← (List.cons.inj h).1]
  exact isDigit_toDigits n c (hcons ▸ List.mem_cons_self)

/-- A zero in front is all there is. -/
theorem eq_newline_of_toDigits_append {n : Nat} {c : Char} {rest more : List Char}
    (h : Nat.toDigits 10 n ++ '\n' :: rest = '0' :: c :: more) : c = '\n' := by
  by_cases hn : n = 0
  · rw [hn] at h
    exact (List.cons.inj (List.cons.inj h).2).1.symm
  · have hhead := congrArg List.head? h
    rw [List.head?_append_of_ne_nil _ Nat.toDigits_ne_nil] at hhead
    exact absurd hhead (Text.head?_toDigits_ne hn)

/-- A number without a fraction and without an exponent is no float. -/
theorem readFloat_toDigits (n : Nat) (rest : List Char) :
    readFloat (Nat.toDigits 10 n ++ '\n' :: rest) = none := by
  have hfirst : ∀ {d : Char} {more : List Char}, d.isDigit = false →
      Nat.toDigits 10 n ++ '\n' :: rest ≠ d :: more := by
    intro d more hd h
    exact Text.ne_of_isDigit (isDigit_of_toDigits_append h) hd rfl
  have hsign : Decimal.splitSign (Nat.toDigits 10 n ++ '\n' :: rest) =
      (false, Nat.toDigits 10 n ++ '\n' :: rest) := by
    rw [Decimal.splitSign]
    · exact fun _ => hfirst (by decide)
    · exact fun _ => hfirst (by decide)
  unfold readFloat
  rw [hsign]
  dsimp only
  rw [readUnsignedFloat, readDecimal_toDigits]
  · -- Neither a fraction nor an exponent follows.
    have hexponent : readExponent ('\n' :: rest) = some (none, '\n' :: rest) := by
      simp [readExponent]
    simp [readFraction, hexponent]
  · exact fun _ => hfirst (by decide)
  · exact fun _ => hfirst (by decide)

/-- A number that is not greater than the integers of a document is read as it is: no prefix for
another base and no sign is in front. -/
theorem readInteger_toDigits {n : Nat} (hn : n ≤ integerMax) (rest : List Char) :
    readInteger (Nat.toDigits 10 n ++ '\n' :: rest) = some ((n : Int), '\n' :: rest) := by
  have hrange : -(integerMax : Int) - 1 ≤ n ∧ (n : Int) ≤ integerMax := by omega
  unfold readInteger
  split
  · next h => exact absurd (eq_newline_of_toDigits_append h) (by decide)
  · next h => exact absurd (eq_newline_of_toDigits_append h) (by decide)
  · next h => exact absurd (eq_newline_of_toDigits_append h) (by decide)
  · next h => exact absurd (isDigit_of_toDigits_append h) (by decide)
  · next h => exact absurd (isDigit_of_toDigits_append h) (by decide)
  · rw [readDecimal_toDigits]
    exact if_pos hrange

/-- Of all scalars, the digits of a number are read as the integer. -/
theorem readScalar_toDigits {n : Nat} (hn : n ≤ integerMax) (rest : List Char) :
    readScalar (Nat.toDigits 10 n ++ '\n' :: rest) = some (.integer n, '\n' :: rest) := by
  unfold readScalar
  rw [readMoment_digits (isDigit_toDigits n), readFloat_toDigits, readInteger_toDigits hn]
  rfl

end RecordMachine.Toml
