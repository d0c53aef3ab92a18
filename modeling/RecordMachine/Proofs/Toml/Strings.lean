import RecordMachine.Toml.Reader
import RecordMachine.Toml.Writer

/-!
# Strings are read as they were written

A string is written in one of four forms, and each is read by a reader of its own. Where escapes are
read, a character has several spellings (`Spells`), and both readers with escapes take each spelling
for its character.

Three marks close a string of several lines, and up to two more in front of them belong to it. So
what matters where the string has marks of its own is how many of them stand in a row: at most two,
and then either the string goes on or it is at its end (`closing?_of_fewMarks`).
-/

namespace RecordMachine.Toml

/-- What is read is one more character of the string. -/
def andThen (c : Char) : Option (List Char × List Char) → Option (List Char × List Char) :=
  Option.map fun read => (c :: read.1, read.2)

/-! ## Spellings of a character -/

/-- How a character is spelled where escapes are read. -/
inductive Spells : List Char → Char → Prop where
  | plain {c : Char} (hplain : isPlain c = true) (hquote : c ≠ '"') (hslash : c ≠ '\\') :
      Spells [c] c
  | letter {e c : Char} (h : escaped? e = some c) : Spells ['\\', e] c
  | number {a b c d x : Char} (h : charOfHex? [a, b, c, d] = some x) :
      Spells ['\\', 'u', a, b, c, d] x

/-- A character that is not written by an escape, and does not end the line, stands for itself. -/
theorem isPlain_of_isControl {c : Char} (h : isControl c = false) (hnewline : c ≠ '\n') :
    isPlain c = true := by
  simp only [isControl, Bool.or_eq_false_iff, Bool.and_eq_false_iff, decide_eq_false_iff_not,
    bne_eq_false_iff_eq, beq_eq_false_iff_ne] at h
  simp only [isPlain, Bool.or_eq_true, beq_iff_eq, Bool.and_eq_true, decide_eq_true_eq, bne_iff_ne]
  obtain ⟨(hlow | htab) | hline, hdelete⟩ := h
  · exact .inr ⟨Nat.not_lt.1 hlow, hdelete⟩
  · exact .inl htab
  · exact absurd hline hnewline

/-- Four digits, of which the first two are zero, are enough for the control characters. -/
theorem charOfHex?_ofNat : ∀ n < 0x80,
    charOfHex? ['0', '0', upperHexDigit (n / 16), upperHexDigit n] = some (Char.ofNat n) := by
  decide

/-- What is written for a character that is neither a quote nor a line end is a spelling of it. -/
theorem spells_escapeChar {c : Char} (hquote : c ≠ '"') (hnewline : c ≠ '\n') :
    Spells (escapeChar c) c := by
  unfold escapeChar
  split
  · exact .letter rfl
  · exact .letter rfl
  · exact .letter rfl
  · exact .letter rfl
  · exact .letter rfl
  · next hslash =>
    split
    · -- A control character has a number below 128, for which two digits are enough.
      next hcontrol =>
      apply Spells.number
      have hascii : c.toNat < 0x80 := by
        simp only [isControl, Bool.or_eq_true, Bool.and_eq_true, decide_eq_true_eq, beq_iff_eq]
          at hcontrol
        omega
      rw [charOfHex?_ofNat c.toNat hascii, Char.ofNat_toNat]
    · next hcontrol =>
      exact .plain (isPlain_of_isControl (Bool.not_eq_true _ ▸ hcontrol) hnewline) hquote hslash

/-- Where a string stands on one line, quotes and line ends are spelled as well. -/
theorem spells_basicChar (c : Char) : Spells (basicChar c) c := by
  unfold basicChar
  split
  · exact .letter rfl
  · exact .letter rfl
  · next hquote hnewline => exact spells_escapeChar hquote hnewline

/-- No spelling begins with a quote or with the end of a line. -/
theorem Spells.eq_cons {piece : List Char} {c : Char} (h : Spells piece c) :
    ∃ a rest, piece = a :: rest ∧ a ≠ '"' ∧ isPlain a = true := by
  cases h with
  | plain hplain hquote => exact ⟨c, [], rfl, hquote, hplain⟩
  | @letter e => exact ⟨'\\', [e], rfl, by decide, by decide⟩
  | @number a b c d => exact ⟨'\\', ['u', a, b, c, d], rfl, by decide, by decide⟩

/-! ## One line -/

/-- The two letters for numbers make no escape of their own. -/
theorem escaped?_ne {e c : Char} (h : escaped? e = some c) : e ≠ 'u' ∧ e ≠ 'U' := by
  constructor <;> rintro rfl <;> cases h

/-- On one line, a spelling is read as its character. -/
theorem readBasic_spells {piece : List Char} {c : Char} (h : Spells piece c) (rest : List Char) :
    readBasic (piece ++ rest) = andThen c (readBasic rest) := by
  cases h with
  | plain hplain hquote hslash =>
    rw [List.singleton_append, readBasic]
    · rw [if_pos ⟨hslash, hplain⟩]
      rfl
    · exact hquote
    · exact fun _ _ _ _ _ h _ => hslash h
    · exact fun _ _ _ _ _ _ _ _ _ h _ => hslash h
    · exact fun _ _ h _ => hslash h
  | @letter e _ h =>
    obtain ⟨hu, hU⟩ := escaped?_ne h
    show readBasic ('\\' :: e :: rest) = _
    rw [readBasic, h]
    · cases readBasic rest <;> rfl
    · exact fun _ _ _ _ _ he _ => hu he
    · exact fun _ _ _ _ _ _ _ _ _ he _ => hU he
  | number h =>
    show readBasic ('\\' :: 'u' :: _ :: _ :: _ :: _ :: rest) = _
    rw [readBasic, h]
    cases readBasic rest <;> rfl

theorem readBasic_flatMap_basicChar (text rest : List Char) :
    readBasic (text.flatMap basicChar ++ '"' :: rest) = some (text, rest) := by
  induction text with
  | nil => rfl
  | cons c text ih =>
    rw [List.flatMap_cons, List.append_assoc, readBasic_spells (spells_basicChar c), ih]
    rfl

/-- A string on one line without escapes ends at its first mark. -/
theorem readLiteral_append {text : List Char} (hplain : ∀ c ∈ text, isPlain c = true)
    (hmark : '\'' ∉ text) (rest : List Char) :
    readLiteral (text ++ '\'' :: rest) = some (text, rest) := by
  induction text with
  | nil => rfl
  | cons c text ih =>
    rw [List.mem_cons, not_or] at hmark
    rw [List.forall_mem_cons] at hplain
    rw [List.cons_append, readLiteral, if_pos hplain.1, ih hplain.2 hmark.2]
    · rfl
    · exact fun h => hmark.1 h.symm

/-! ## Marks in a row -/

/-- Up to two marks in front of the three that close a string belong to it. -/
theorem closing?_replicate {mark : Char} {k : Nat} (hk : k ≤ 2) {rest : List Char}
    (hrest : rest.head? ≠ some mark) :
    closing? mark (List.replicate k mark ++ mark :: mark :: mark :: rest) =
      some (List.replicate k mark, rest) := by
  match k, hk with
  | 0, _ =>
    match rest, hrest with
    | [], _ => simp [closing?]
    | [c], hc => simp_all [closing?]
    | c :: d :: rest, hc => simp_all [closing?]
  | 1, _ =>
    match rest, hrest with
    | [], _ => simp [closing?]
    | c :: rest, hc => simp_all [closing?, List.replicate]
  | 2, _ => simp [closing?, List.replicate]

/-- Up to two marks that another character follows do not close a string. -/
theorem closing?_eq_none {mark c : Char} {k : Nat} (hk : k ≤ 2) (hc : c ≠ mark) (rest : List Char) :
    closing? mark (List.replicate k mark ++ c :: rest) = none := by
  match k, hk with
  | 0, _ => match rest with
    | [] | [_] => rfl
    | _ :: _ :: _ => exact if_neg fun h => hc h.1
  | 1, _ => match rest with
    | [] => rfl
    | _ :: _ => exact if_neg fun h => hc h.2.1
  | 2, _ => exact if_neg fun h => hc h.2.2

/-- At most two marks stand in front. -/
def FewMarks (mark : Char) (text : List Char) : Prop :=
  ∃ k rest, text = List.replicate k mark ++ rest ∧ k ≤ 2 ∧ rest.head? ≠ some mark

/-- Before the closing marks, a text that has few marks in front is at its end or goes on. -/
theorem closing?_of_fewMarks {mark : Char} {text rest : List Char} (h : FewMarks mark text)
    (hrest : rest.head? ≠ some mark) :
    closing? mark (text ++ mark :: mark :: mark :: rest) = none ∨
      (∀ c ∈ text, c = mark) ∧
        closing? mark (text ++ mark :: mark :: mark :: rest) = some (text, rest) := by
  obtain ⟨k, more, rfl, hk, hmore⟩ := h
  cases more with
  | nil =>
    right
    rw [List.append_nil]
    exact ⟨fun c hc => List.eq_of_mem_replicate hc, closing?_replicate hk hrest⟩
  | cons c more =>
    left
    rw [List.append_assoc, List.cons_append]
    exact closing?_eq_none hk (fun h => hmore (congrArg some h)) _

/-! ## Several lines -/

/-- A character that stands for itself ends no line. -/
theorem isPlain_ne {c : Char} (h : isPlain c = true) : c ≠ '\n' ∧ c ≠ '\r' := by
  constructor <;> rintro rfl <;> cases h

theorem closing?_of_ne {mark c : Char} (hc : c ≠ mark) (rest : List Char) :
    closing? mark (c :: rest) = none :=
  closing?_eq_none (Nat.zero_le 2) hc rest

/-- A line end in a string of several lines is a character of it. -/
theorem readLiteralLines_newline (rest : List Char) :
    readLiteralLines ('\n' :: rest) = andThen '\n' (readLiteralLines rest) := by
  rw [readLiteralLines, closing?_of_ne (by decide)]
  rfl

/-- So is a character that stands for itself and does not close the string. -/
theorem readLiteralLines_plain {c : Char} {rest : List Char} (hplain : isPlain c = true)
    (hclosing : closing? '\'' (c :: rest) = none) :
    readLiteralLines (c :: rest) = andThen c (readLiteralLines rest) := by
  obtain ⟨hnewline, hreturn⟩ := isPlain_ne hplain
  rw [readLiteralLines, hclosing]
  · exact if_pos hplain
  · exact hnewline
  · exact fun _ h _ => hreturn h

/-- With escapes, too, a line end is a character of the string. -/
theorem readBasicLines_newline (rest : List Char) :
    readBasicLines false ('\n' :: rest) = andThen '\n' (readBasicLines false rest) := by
  rw [readBasicLines, closing?_of_ne (by decide)]
  rfl

/-- With escapes, too, a character stands for itself, unless it is a backslash. -/
theorem readBasicLines_plain {c : Char} {rest : List Char} (hplain : isPlain c = true)
    (hslash : c ≠ '\\') (hclosing : closing? '"' (c :: rest) = none) :
    readBasicLines false (c :: rest) = andThen c (readBasicLines false rest) := by
  obtain ⟨hnewline, hreturn⟩ := isPlain_ne hplain
  rw [readBasicLines, hclosing]
  · simp [hslash, hplain, andThen]
  · exact hnewline
  · exact fun _ h _ => hreturn h
  · exact fun _ _ _ _ _ h _ => hslash h
  · exact fun _ _ _ _ _ _ _ _ _ h _ => hslash h
  · exact fun _ _ h _ => hslash h

/-- A letter that makes an escape is not a blank, so the backslash in front of it does not end a
line. -/
theorem endsLine_of_escaped? {e c : Char} (h : escaped? e = some c) (rest : List Char) :
    endsLine (e :: rest) = false := by
  unfold escaped? at h
  split at h <;> first | rfl | cases h

/-- On several lines, too, a spelling is read as its character. -/
theorem readBasicLines_spells {piece : List Char} {c : Char} (h : Spells piece c)
    (rest : List Char) :
    readBasicLines false (piece ++ rest) = andThen c (readBasicLines false rest) := by
  cases h with
  | plain hplain hquote hslash =>
    exact readBasicLines_plain hplain hslash (closing?_of_ne hquote rest)
  | @letter e _ h =>
    obtain ⟨hu, hU⟩ := escaped?_ne h
    show readBasicLines false ('\\' :: e :: rest) = _
    rw [readBasicLines, closing?_of_ne (by decide), endsLine_of_escaped? h, h]
    · cases readBasicLines false rest <;> rfl
    · exact fun _ _ _ _ _ he _ => hu he
    · exact fun _ _ _ _ _ _ _ _ _ he _ => hU he
  | number h =>
    show readBasicLines false ('\\' :: 'u' :: _ :: _ :: _ :: _ :: rest) = _
    rw [readBasicLines, closing?_of_ne (by decide), h]
    cases readBasicLines false rest <;> rfl

/-- A string ends with the marks that close it, and with those in front of them. -/
theorem readLiteralLines_of_closing? {text : List Char} {read : List Char × List Char}
    (h : closing? '\'' text = some read) : readLiteralLines text = some read := by
  rw [readLiteralLines.eq_def, h]

theorem readBasicLines_of_closing? {text : List Char} {read : List Char × List Char}
    (h : closing? '"' text = some read) : readBasicLines false text = some read := by
  rw [readBasicLines.eq_def, h]

/-- Two marks in front are followed by another character if there is no row of three. -/
theorem fewMarks_of_hasTriple {mark : Char} {text : List Char} (h : hasTriple mark text = false) :
    FewMarks mark text := by
  have hother : ∀ {c : Char} {rest : List Char}, c ≠ mark → (c :: rest).head? ≠ some mark :=
    fun hc heq => hc (Option.some.inj heq)
  match text with
  | [] => exact ⟨0, [], rfl, by decide, by simp⟩
  | a :: rest =>
    -- Up to three characters are looked at, and not all of them can be marks.
    by_cases ha : a = mark
    · subst ha
      match rest with
      | [] => exact ⟨1, [], rfl, by decide, by simp⟩
      | b :: rest =>
        by_cases hb : b = a
        · subst hb
          match rest with
          | [] => exact ⟨2, [], rfl, by decide, by simp⟩
          | c :: rest =>
            refine ⟨2, c :: rest, rfl, by decide, hother ?_⟩
            rintro rfl
            simp [hasTriple] at h
        · exact ⟨1, b :: rest, rfl, by decide, hother hb⟩
    · exact ⟨0, a :: rest, rfl, by decide, hother ha⟩

/-- A row of three further on is also one of the whole text. -/
theorem hasTriple_tail {mark c : Char} {text : List Char} (h : hasTriple mark (c :: text) = false) :
    hasTriple mark text = false := by
  match text with
  | [] | [_] => rfl
  | _ :: _ :: _ => exact (Bool.or_eq_false_iff.1 h).2

/-- A string of several lines without escapes is read back, if it has no three marks in a row. -/
theorem readLiteralLines_append {text rest : List Char} (hcontrol : ∀ c ∈ text, isControl c = false)
    (htriple : hasTriple '\'' text = false) (hrest : rest.head? ≠ some '\'') :
    readLiteralLines (text ++ '\'' :: '\'' :: '\'' :: rest) = some (text, rest) := by
  induction text with
  | nil => exact readLiteralLines_of_closing? (closing?_replicate (Nat.zero_le 2) hrest)
  | cons c text ih =>
    rw [List.forall_mem_cons] at hcontrol
    have hmore := ih hcontrol.2 (hasTriple_tail htriple)
    rcases closing?_of_fewMarks (fewMarks_of_hasTriple htriple) hrest with hnone | ⟨-, hsome⟩
    · -- The string goes on: a line end is read as one, and any other character stands for itself.
      by_cases hc : c = '\n'
      · rw [hc, List.cons_append, readLiteralLines_newline, hmore]
        rfl
      · rw [List.cons_append] at hnone ⊢
        rw [readLiteralLines_plain (isPlain_of_isControl hcontrol.1 hc) hnone, hmore]
        rfl
    · exact readLiteralLines_of_closing? hsome

/-- What is written for another character never begins with a quote. -/
theorem escapeChar_eq_cons {c : Char} (hc : c ≠ '"') :
    ∃ a rest, escapeChar c = a :: rest ∧ a ≠ '"' := by
  by_cases hnewline : c = '\n'
  · exact ⟨'\n', [], by rw [hnewline]; rfl, by decide⟩
  · obtain ⟨a, rest, hpiece, ha, -⟩ := (spells_escapeChar hc hnewline).eq_cons
    exact ⟨a, rest, hpiece, ha⟩

/-- Of the quotes that stand for themselves, no more than two are in a row. -/
theorem basicLinesText_eq_append {run : Nat} (hrun : run ≤ 2) (text : List Char) :
    ∃ k rest, basicLinesText run text = List.replicate k '"' ++ rest ∧ run + k ≤ 2 ∧
      rest.head? ≠ some '"' := by
  induction text generalizing run with
  | nil => exact ⟨0, [], rfl, hrun, by simp⟩
  | cons c text ih =>
    rw [basicLinesText]
    by_cases hc : c = '"'
    · rw [if_pos hc]
      -- A third quote is escaped, and then a backslash is in front.
      by_cases hfull : run = 2
      · rw [if_pos hfull]
        exact ⟨0, _, rfl, hrun, by simp⟩
      · rw [if_neg hfull]
        obtain ⟨k, rest, heq, hk, hhead⟩ := ih (show run + 1 ≤ 2 by omega)
        exact ⟨k + 1, rest, by rw [heq]; rfl, by omega, hhead⟩
    · rw [if_neg hc]
      obtain ⟨a, rest, hpiece, ha⟩ := escapeChar_eq_cons hc
      refine ⟨0, _, rfl, hrun, ?_⟩
      rw [hpiece]
      exact fun heq => ha (Option.some.inj heq)

/-- If only quotes are written, none of them is escaped. -/
theorem basicLinesText_of_quotes {run : Nat} {text : List Char}
    (h : ∀ c ∈ basicLinesText run text, c = '"') : basicLinesText run text = text := by
  induction text generalizing run with
  | nil => rfl
  | cons c text ih =>
    rw [basicLinesText] at h ⊢
    by_cases hc : c = '"'
    · rw [if_pos hc] at h ⊢
      by_cases hfull : run = 2
      · rw [if_pos hfull] at h
        exact absurd (h _ List.mem_cons_self) (by decide)
      · rw [if_neg hfull] at h ⊢
        rw [ih fun d hd => h d (List.mem_cons_of_mem _ hd), hc]
    · rw [if_neg hc] at h
      obtain ⟨a, rest, hpiece, ha⟩ := escapeChar_eq_cons hc
      rw [hpiece] at h
      exact absurd (h a List.mem_cons_self) ha

/-- A string of several lines with escapes is read back. -/
theorem readBasicLines_basicLinesText {run : Nat} (hrun : run ≤ 2) {text rest : List Char}
    (hrest : rest.head? ≠ some '"') :
    readBasicLines false (basicLinesText run text ++ '"' :: '"' :: '"' :: rest)
      = some (text, rest) := by
  -- The invariant is on what is written, since the quotes in front decide whether the string ends
  -- here; how many of them there may be depends on those before, and so the induction is for every
  -- run.
  induction text generalizing run with
  | nil => exact readBasicLines_of_closing? (closing?_replicate (Nat.zero_le 2) hrest)
  | cons c text ih =>
    obtain ⟨k, more, heq, hk, hmore⟩ := basicLinesText_eq_append hrun (c :: text)
    have hfew : FewMarks '"' (basicLinesText run (c :: text)) := ⟨k, more, heq, by omega, hmore⟩
    rcases closing?_of_fewMarks hfew hrest with hnone | ⟨hquotes, hsome⟩
    · rw [basicLinesText] at hnone ⊢
      by_cases hc : c = '"'
      · rw [if_pos hc] at hnone ⊢
        by_cases hfull : run = 2
        · rw [if_pos hfull]
          -- The third quote in a row is escaped, and the next one starts a new row.
          have hspells : Spells ['\\', '"'] '"' := .letter rfl
          show readBasicLines false (['\\', '"'] ++ (basicLinesText 0 text ++ _)) = _
          rw [readBasicLines_spells hspells, ih (Nat.zero_le 2), hc]
          rfl
        · rw [if_neg hfull] at hnone ⊢
          rw [List.cons_append] at hnone ⊢
          rw [readBasicLines_plain (by decide) (by decide) hnone, ih (by omega), hc]
          rfl
      · rw [if_neg hc, List.append_assoc]
        by_cases hnewline : c = '\n'
        · have hpiece : escapeChar '\n' = ['\n'] := rfl
          rw [hnewline, hpiece, List.singleton_append, readBasicLines_newline, ih (Nat.zero_le 2)]
          rfl
        · rw [readBasicLines_spells (spells_escapeChar hc hnewline), ih (Nat.zero_le 2)]
          rfl
    · rw [readBasicLines_of_closing? hsome, basicLinesText_of_quotes hquotes]

/-! ## All forms -/

theorem readString_basic (text : List Char) {rest : List Char} (hrest : rest.head? ≠ some '"') :
    readString (quoteAs .basic text ++ rest) = some (text, rest) := by
  show readString ('"' :: (text.flatMap basicChar ++ ['"'] ++ rest)) = _
  rw [List.append_assoc, List.singleton_append, readString, readBasic_flatMap_basicChar]
  -- The three quotes of the other form are not in front.
  intro more hmore
  cases text with
  | nil =>
    rw [List.flatMap_nil, List.nil_append] at hmore
    rw [(List.cons.inj hmore).2] at hrest
    exact hrest rfl
  | cons c text =>
    obtain ⟨a, piece, hpiece, ha, -⟩ := (spells_basicChar c).eq_cons
    rw [List.flatMap_cons, hpiece] at hmore
    exact ha (List.cons.inj hmore).1

/-- One line without escapes: the string has no mark of its own, so that the three marks of the
other form are not in front either. -/
theorem readString_literal {text rest : List Char} (hplain : ∀ c ∈ text, isPlain c = true)
    (hmark : '\'' ∉ text) (hrest : rest.head? ≠ some '\'') :
    readString (quoteAs .literal text ++ rest) = some (text, rest) := by
  show readString ('\'' :: (text ++ ['\''] ++ rest)) = _
  rw [List.append_assoc, List.singleton_append, readString, readLiteral_append hplain hmark]
  intro more hmore
  cases text with
  | nil =>
    rw [List.nil_append] at hmore
    rw [(List.cons.inj hmore).2] at hrest
    exact hrest rfl
  | cons c text =>
    rw [(List.cons.inj hmore).1] at hmark
    exact hmark List.mem_cons_self

/-- A line end after the opening marks is there only if the string has one of its own, so only that
one is dropped. -/
theorem skipFirstNewline_firstNewline {text body : List Char}
    (h : '\n' ∉ text → ∀ c ∈ body.head?, isPlain c = true) :
    skipFirstNewline (firstNewline text ++ body) = body := by
  unfold firstNewline
  -- A string with a line end gets another one in front, which is the one that is dropped.
  by_cases hnewline : '\n' ∈ text
  · rw [if_pos (List.contains_iff_mem.2 hnewline)]
    rfl
  · rw [if_neg (fun hmem => hnewline (List.contains_iff_mem.1 hmem)), List.nil_append]
    cases body with
    | nil => rfl
    | cons c body =>
      obtain ⟨hline, hreturn⟩ := isPlain_ne (h hnewline c rfl)
      unfold skipFirstNewline
      rw [newline?]
      · rfl
      · exact fun _ heq => hline (List.cons.inj heq).1
      · exact fun _ heq => hreturn (List.cons.inj heq).1

/-- If a string has no line end, what is written for it does not begin with one. -/
theorem isPlain_head?_basicLinesText {text : List Char} (hnewline : '\n' ∉ text)
    (rest : List Char) :
    ∀ c ∈ (basicLinesText 0 text ++ '"' :: rest).head?, isPlain c = true := by
  cases text with
  | nil => rintro c ⟨⟩; decide
  | cons c text =>
    rw [List.mem_cons, not_or] at hnewline
    rw [basicLinesText]
    by_cases hc : c = '"'
    · rw [if_pos hc, if_neg (by decide)]
      rintro c ⟨⟩
      decide
    · rw [if_neg hc]
      obtain ⟨a, piece, hpiece, -, hplain⟩ := (spells_escapeChar hc (Ne.symm hnewline.1)).eq_cons
      rw [hpiece]
      rintro c ⟨⟩
      exact hplain

theorem readString_basicLines (text : List Char) {rest : List Char}
    (hrest : rest.head? ≠ some '"') :
    readString (quoteAs .basicLines text ++ rest) = some (text, rest) := by
  have hquoted : quoteAs .basicLines text ++ rest = '"' :: '"' :: '"' ::
      (firstNewline text ++ (basicLinesText 0 text ++ '"' :: '"' :: '"' :: rest)) := by
    simp [quoteAs]
  rw [hquoted, readString, skipFirstNewline_firstNewline]
  · exact readBasicLines_basicLinesText (Nat.zero_le 2) hrest
  · exact fun hnewline => isPlain_head?_basicLinesText hnewline _

theorem readString_literalLines {text rest : List Char} (hcontrol : ∀ c ∈ text, isControl c = false)
    (htriple : hasTriple '\'' text = false) (hrest : rest.head? ≠ some '\'') :
    readString (quoteAs .literalLines text ++ rest) = some (text, rest) := by
  have hquoted : quoteAs .literalLines text ++ rest = '\'' :: '\'' :: '\'' ::
      (firstNewline text ++ (text ++ '\'' :: '\'' :: '\'' :: rest)) := by
    simp [quoteAs]
  rw [hquoted, readString, skipFirstNewline_firstNewline]
  · exact readLiteralLines_append hcontrol htriple hrest
  · intro hnewline
    cases text with
    | nil => rintro c ⟨⟩; decide
    | cons c text =>
      rintro c ⟨⟩
      apply isPlain_of_isControl (hcontrol _ List.mem_cons_self)
      rintro rfl
      exact hnewline List.mem_cons_self

/-- The form without escapes on one line is chosen only for strings that need none. -/
theorem of_quotingFor_eq_literal {text : List Char} (h : quotingFor text = .literal) :
    (∀ c ∈ text, isControl c = false) ∧ '\n' ∉ text ∧ '\'' ∉ text := by
  unfold quotingFor at h
  dsimp only at h
  split at h
  · cases h
  · split at h
    · next hliteral => simpa [and_assoc] using hliteral
    · split at h
      · cases h
      · split at h
        · cases h
        · split at h <;> cases h

/-- The form without escapes on several lines is chosen only for strings without control characters
and without three marks in a row. -/
theorem of_quotingFor_eq_literalLines {text : List Char} (h : quotingFor text = .literalLines) :
    (∀ c ∈ text, isControl c = false) ∧ hasTriple '\'' text = false := by
  unfold quotingFor at h
  dsimp only at h
  split at h
  · cases h
  · split at h
    · cases h
    · split at h
      · cases h
      · split at h
        · next hlines => simpa using hlines
        · split at h <;> cases h

/-- A string is read as it was written: each form can hold the strings that it is chosen for. -/
theorem readString_quote (text : List Char) {rest : List Char} (hquote : rest.head? ≠ some '"')
    (hmark : rest.head? ≠ some '\'') : readString (quote text ++ rest) = some (text, rest) := by
  unfold quote
  cases hform : quotingFor text with
  | basic => exact readString_basic text hquote
  | literal =>
    obtain ⟨hcontrol, hnewline, happostrophe⟩ := of_quotingFor_eq_literal hform
    refine readString_literal (fun c hc => isPlain_of_isControl (hcontrol c hc) ?_) happostrophe
      hmark
    rintro rfl
    exact hnewline hc
  | basicLines => exact readString_basicLines text hquote
  | literalLines =>
    obtain ⟨hcontrol, htriple⟩ := of_quotingFor_eq_literalLines hform
    exact readString_literalLines hcontrol htriple hmark

end RecordMachine.Toml
