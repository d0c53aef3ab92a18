import Mathlib.Data.List.Basic
import RecordMachine.Text.Quoted

/-!
# Texts that can be taken apart

What is printed is made by putting texts after each other. Which texts they were can be seen from
the whole in three ways:

* a text ends before the first character that cannot stand in it (`append_inj_of_mark`), as a
  numeral does before a blank;
* a text between quotes ends at the first quote that no backslash stands before
  (`escape_append_inj`), whatever characters it has;
* a line ends at the first line break (`lines_inj`).
-/

namespace RecordMachine.Text

/-- Two lists that start with elements without a mark and go on with a marked one, if at all: if
they are equal, so are the two parts. -/
theorem append_inj_of_mark {α : Type} (mark : α → Prop) {a b s t : List α}
    (ha : ∀ x ∈ a, ¬mark x) (hb : ∀ x ∈ b, ¬mark x)
    (hs : ∀ x ∈ s.head?, mark x) (ht : ∀ x ∈ t.head?, mark x) (h : a ++ s = b ++ t) :
    a = b ∧ s = t := by
  induction a generalizing b with
  | nil =>
    cases b with
    | nil => exact ⟨rfl, h⟩
    | cons y b =>
      -- The second list starts without a mark, the first one with one.
      have hy : mark y := hs y (by simp_all)
      exact absurd hy (hb y List.mem_cons_self)
  | cons x a ih =>
    cases b with
    | nil =>
      have hx : mark x := ht x (by rw [List.nil_append] at h; simp [← h])
      exact absurd hx (ha x List.mem_cons_self)
    | cons y b =>
      rw [List.forall_mem_cons] at ha hb
      rw [List.cons_append, List.cons_append, List.cons.injEq] at h
      obtain ⟨hab, hst⟩ := ih ha.2 hb.2 h.2
      exact ⟨by rw [h.1, hab], hst⟩

/-! ## Numerals -/

theorem isDigit_of_mem_toString {n : Nat} {c : Char} (h : c ∈ (toString n).toList) :
    c.isDigit = true := by
  rw [Nat.toString_eq_ofList_toDigits, String.toList_ofList] at h
  exact Nat.isDigit_of_mem_toDigits (by decide) (by decide) h

theorem not_mem_toString (n : Nat) {c : Char} (hc : c.isDigit = false) :
    c ∉ (toString n).toList := by
  intro hmem
  rw [isDigit_of_mem_toString hmem] at hc
  cases hc

theorem exists_cons_toString (n : Nat) :
    ∃ c rest, (toString n).toList = c :: rest ∧ c.isDigit = true := by
  have hne : (toString n).toList ≠ [] := by
    rw [Nat.toString_eq_ofList_toDigits, String.toList_ofList]
    exact Nat.toDigits_ne_nil
  obtain ⟨c, rest, hc⟩ := List.exists_cons_of_ne_nil hne
  exact ⟨c, rest, hc, isDigit_of_mem_toString (hc ▸ List.mem_cons_self)⟩

/-- A numeral has no needless zero. -/
theorem head?_toDigits_ne {n : Nat} (hn : n ≠ 0) : (Nat.toDigits 10 n).head? ≠ some '0' := by
  induction n using Nat.strongRecOn with
  | ind n ih =>
    rw [Nat.toDigits_eq_if (by decide)]
    split
    · next hlt =>
      have hdigit : ∀ m < 10, m ≠ 0 → Nat.digitChar m ≠ '0' := by decide
      simpa using hdigit n hlt hn
    · next hge =>
      -- The first digit is that of the quotient, which is not zero either.
      have hquotient : n / 10 ≠ 0 := by omega
      rw [List.head?_append_of_ne_nil _ Nat.toDigits_ne_nil]
      exact ih (n / 10) (by omega) hquotient

/-- Reading the digits of a number gives the number. -/
theorem ofDigitChars_toString (n : Nat) : Nat.ofDigitChars 10 (toString n).toList 0 = n := by
  rw [Nat.toString_eq_ofList_toDigits, String.toList_ofList, Nat.ofDigitChars_ten_toDigits]

theorem nat_eq_of_toString {m n : Nat} (h : (toString m).toList = (toString n).toList) : m = n := by
  rw [← ofDigitChars_toString m, h, ofDigitChars_toString]

/-- The numeral of a whole number: that of its magnitude, after a minus sign if it is negative. -/
theorem toList_toString_int (n : Int) :
    (toString n).toList
      = if n < 0 then '-' :: (toString n.natAbs).toList else (toString n.natAbs).toList := by
  rw [Int.toString_eq_repr, Int.repr_eq_if]
  split
  · next hn =>
    have habs : n.toNat = n.natAbs := by omega
    rw [if_neg (by omega), habs]
    rfl
  · next hn =>
    have habs : (-n).toNat = n.natAbs := by omega
    rw [if_pos (by omega), habs, String.toList_append]
    rfl

/-- The numeral of a whole number has digits and possibly a minus sign. -/
theorem mem_toString_int {n : Int} {c : Char} (h : c ∈ (toString n).toList) :
    c = '-' ∨ c.isDigit = true := by
  rw [toList_toString_int] at h
  split at h
  · rcases List.mem_cons.1 h with rfl | hdigit
    · exact .inl rfl
    · exact .inr (isDigit_of_mem_toString hdigit)
  · exact .inr (isDigit_of_mem_toString h)

theorem exists_cons_toString_int (n : Int) :
    ∃ c rest, (toString n).toList = c :: rest ∧ (c = '-' ∨ c.isDigit = true) := by
  rw [toList_toString_int]
  split
  · exact ⟨_, _, rfl, .inl rfl⟩
  · obtain ⟨c, rest, hc, hdigit⟩ := exists_cons_toString n.natAbs
    exact ⟨c, rest, hc, .inr hdigit⟩

theorem ne_of_isDigit {c d : Char} (hc : c.isDigit = true) (hd : d.isDigit = false) : c ≠ d := by
  rintro rfl
  rw [hc] at hd
  cases hd

theorem not_mem_toString_int (n : Int) {c : Char} (hminus : c ≠ '-') (hc : c.isDigit = false) :
    c ∉ (toString n).toList := by
  intro hmem
  rcases mem_toString_int hmem with rfl | hdigit
  · exact hminus rfl
  · rw [hdigit] at hc
    cases hc

/-- Whole numbers of the same numeral are the same: either both have a minus sign or neither has. -/
theorem int_eq_of_toString {m n : Int} (h : (toString m).toList = (toString n).toList) : m = n := by
  have hminus : ∀ k : Nat, '-' ∉ (toString k).toList := fun k => not_mem_toString k (by decide)
  rw [toList_toString_int, toList_toString_int] at h
  split at h <;> split at h
  · have habs := nat_eq_of_toString (List.cons.inj h).2
    omega
  · exact absurd (h ▸ List.mem_cons_self) (hminus n.natAbs)
  · exact absurd (h ▸ List.mem_cons_self) (hminus m.natAbs)
  · have habs := nat_eq_of_toString h
    omega

/-! ## Lines -/

/-- A line: its last character is a line break, and no other one is. -/
def IsLine (s : String) : Prop := ∃ body : List Char, '\n' ∉ body ∧ s.toList = body ++ ['\n']

/-- The lines of a text are determined by it. -/
theorem lines_inj {ls ms : List String} (hls : ∀ l ∈ ls, IsLine l) (hms : ∀ m ∈ ms, IsLine m)
    (h : String.join ls = String.join ms) : ls = ms := by
  have hlists := congrArg String.toList h
  rw [String.toList_join, String.toList_join] at hlists
  clear h
  induction ls generalizing ms with
  | nil =>
    cases ms with
    | nil => rfl
    | cons m ms =>
      obtain ⟨body, _, hm⟩ := hms m List.mem_cons_self
      simp [hm] at hlists
  | cons l ls ih =>
    obtain ⟨body, hbody, hl⟩ := hls l List.mem_cons_self
    cases ms with
    | nil => simp [hl] at hlists
    | cons m ms =>
      obtain ⟨body', hbody', hm⟩ := hms m List.mem_cons_self
      rw [List.flatMap_cons, List.flatMap_cons, hl, hm, List.append_assoc, List.append_assoc]
        at hlists
      -- The first lines end at the first line break, and what follows it is the rest of both texts.
      have hparts : body = body' ∧
          '\n' :: ls.flatMap String.toList = '\n' :: ms.flatMap String.toList :=
        append_inj_of_mark (· = '\n') (fun _ hc => ne_of_mem_of_not_mem hc hbody)
          (fun _ hc => ne_of_mem_of_not_mem hc hbody') (by simp) (by simp) hlists
      have hlm : l = m := by rw [← String.toList_inj, hl, hm, hparts.1]
      have hrest : ls = ms :=
        ih (fun l hl => hls l (List.mem_cons_of_mem _ hl))
          (fun m hm => hms m (List.mem_cons_of_mem _ hm)) (List.cons.inj hparts.2).2
      rw [hlm, hrest]

/-! ## Quoted texts -/

/-- The characters that stand around quoted texts. -/
def IsQuote (q : Char) : Prop := q = '\'' ∨ q = '"'

section Quoted

variable {q : Char}

/-- A character is written with a backslash and a letter, or else as itself. -/
theorem escapeChar_cases (q c : Char) :
    (∃ letter, escapeChar q c = ['\\', letter] ∧ letter ≠ '\n') ∨
      (escapeChar q c = [c] ∧ c ≠ '\\' ∧ c ≠ q ∧ c ≠ '\n') := by
  unfold escapeChar
  split
  · exact .inl ⟨'n', rfl, by decide⟩
  · exact .inl ⟨'r', rfl, by decide⟩
  · exact .inl ⟨'t', rfl, by decide⟩
  · exact .inl ⟨'\\', rfl, by decide⟩
  · next hnewline _ _ hbackslash =>
    split
    · next hquote => exact .inl ⟨c, rfl, hnewline⟩
    · next hquote => exact .inr ⟨rfl, hbackslash, hquote, hnewline⟩

/-- No character is written like the beginning of another. -/
theorem escapeChar_append_inj (hq : IsQuote q) {c d : Char} {s t : List Char}
    (h : escapeChar q c ++ s = escapeChar q d ++ t) : c = d ∧ s = t := by
  unfold escapeChar at h
  rcases hq with rfl | rfl
  all_goals
    split at h <;> split at h <;> grind

/-- What is written for a character does not start with the quote. -/
theorem escapeChar_append_ne (hq : IsQuote q) (c : Char) (s t : List Char) :
    escapeChar q c ++ s ≠ q :: t := by
  intro h
  rcases escapeChar_cases q c with ⟨letter, hc, _⟩ | ⟨hc, _, hquote, _⟩
  · rw [hc, List.cons_append, List.cons.injEq] at h
    rcases hq with rfl | rfl
    · exact absurd h.1 (by decide)
    · exact absurd h.1 (by decide)
  · rw [hc, List.cons_append, List.cons.injEq] at h
    exact hquote h.1

/-- A text between quotes ends at the quote that closes it. -/
theorem escape_append_inj (hq : IsQuote q) {a b s t : List Char}
    (h : escape q a ++ q :: s = escape q b ++ q :: t) : a = b ∧ s = t := by
  -- Character by character: neither text can end while the other goes on, since no spelling begins
  -- with the quote.
  induction a generalizing b with
  | nil =>
    cases b with
    | nil => exact ⟨rfl, (List.cons.inj h).2⟩
    | cons d b =>
      rw [escape, escape, List.flatMap_nil, List.flatMap_cons, List.append_assoc] at h
      exact absurd h.symm (escapeChar_append_ne hq d _ _)
  | cons c a ih =>
    cases b with
    | nil =>
      rw [escape, escape, List.flatMap_nil, List.flatMap_cons, List.append_assoc] at h
      exact absurd h (escapeChar_append_ne hq c _ _)
    | cons d b =>
      rw [escape, escape, List.flatMap_cons, List.flatMap_cons, List.append_assoc,
        List.append_assoc] at h
      obtain ⟨hcd, hrest⟩ := escapeChar_append_inj hq h
      obtain ⟨hab, hst⟩ := ih hrest
      exact ⟨by rw [hcd, hab], hst⟩

/-- A quoted text stands on a single line. -/
theorem newline_not_mem_quoted (hq : IsQuote q) (text : List Char) :
    '\n' ∉ (quoted q text).toList := by
  have hquote : '\n' ≠ q := by
    rcases hq with rfl | rfl <;> decide
  -- A line break is written as a letter after a backslash.
  have hescape : '\n' ∉ escape q text := by
    intro hmem
    obtain ⟨c, _, hc⟩ := List.mem_flatMap.1 hmem
    rcases escapeChar_cases q c with ⟨letter, heq, hletter⟩ | ⟨heq, _, _, hne⟩
    · rw [heq] at hc
      simp [hletter.symm] at hc
    · rw [heq, List.mem_singleton] at hc
      exact hne hc.symm
  unfold quoted
  simp [hquote, hescape]

end Quoted

end RecordMachine.Text
