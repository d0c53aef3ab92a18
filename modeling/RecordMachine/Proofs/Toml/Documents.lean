import RecordMachine.Proofs.Toml.Numerals
import RecordMachine.Proofs.Toml.Strings

/-!
# Documents are read line by line

A text is written for some lines if the reader takes it off the front of any document and makes
these lines of it (`ReadsAs`). Texts that follow each other are then read as their lines are
(`ReadsAs.append`), and a document that is written in this way is read as a whole
(`parse?_of_readsAs`). A line is the header of a table, or a bare name and a value that ends where
the line ends (`ReadsAsValue`).
-/

namespace RecordMachine.Toml

/-! ## Documents -/

/-- The text is read as these lines, whatever follows it. A line takes up at least one character. -/
structure ReadsAs (text : List Char) (lines : List Line) : Prop where
  length_le : lines.length ≤ text.length
  readLines_append : ∀ count fuel rest, readLines (lines.length + count) (fuel + 1) (text ++ rest) =
    (readLines count (fuel + 1) rest).map (lines ++ ·)

theorem readsAs_nil : ReadsAs [] [] where
  length_le := Nat.le_refl 0
  readLines_append := by
    intro count fuel rest
    rw [List.length_nil, Nat.zero_add, List.nil_append]
    exact Option.map_id'.symm

/-- Texts that follow each other are read as the lines of both. -/
theorem ReadsAs.append {text more : List Char} {lines others : List Line} (h : ReadsAs text lines)
    (hmore : ReadsAs more others) : ReadsAs (text ++ more) (lines ++ others) where
  length_le := by
    rw [List.length_append, List.length_append]
    exact Nat.add_le_add h.length_le hmore.length_le
  readLines_append := by
    intro count fuel rest
    rw [List.length_append, Nat.add_assoc, List.append_assoc, h.readLines_append,
      hmore.readLines_append, Option.map_map]
    simp [Function.comp_def]

/-- A line that begins with a character of its own is read up to its end. -/
theorem readsAs_singleton {c : Char} {body more : List Char} {line : Line}
    (hbody : body = c :: more) (hspace : isSpace c = false) (hmark : c ≠ '\n' ∧ c ≠ '\r' ∧ c ≠ '#')
    (h : ∀ fuel rest, readLine (fuel + 1) (body ++ '\n' :: rest) = some (line, '\n' :: rest)) :
    ReadsAs (body ++ ['\n']) [line] where
  length_le := by simp
  readLines_append := by
    intro count fuel rest
    -- No blank line and no comment is in front.
    have hskip : skipLines false (body ++ '\n' :: rest) = c :: (more ++ '\n' :: rest) := by
      rw [hbody]
      simp [skipLines, hspace, hmark]
    have hline : readLine (fuel + 1) (c :: (more ++ '\n' :: rest)) = some (line, '\n' :: rest) := by
      rw [← List.cons_append, ← hbody]
      exact h fuel rest
    have hend : endLine? ('\n' :: rest) = some rest := rfl
    rw [List.append_assoc, List.singleton_append, List.length_singleton, Nat.add_comm 1, readLines,
      hskip]
    dsimp only
    rw [hline]
    dsimp only
    rw [hend]
    rfl

/-- A document is read as the lines that it was written for. -/
theorem parse?_of_readsAs {text : List Char} {lines : List Line} (h : ReadsAs text lines)
    (hmark : text.head? ≠ some '\ufeff') : parse? text = some lines := by
  have hskip : skipMark text = text := by
    unfold skipMark
    split
    · exact absurd rfl hmark
    · rfl
  -- The bound on the number of lines leaves one more step, for the end of the text.
  obtain ⟨count, hcount⟩ : ∃ count, text.length + 1 = lines.length + (count + 1) :=
    ⟨text.length - lines.length, by have := h.length_le; omega⟩
  have hread := h.readLines_append (count + 1) (2 * text.length + 1) []
  rw [List.append_nil] at hread
  unfold parse?
  rw [hskip, hcount, hread]
  simp [readLines, skipLines]

/-! ## Keys -/

/-- A name that is a key without quotes. -/
structure IsBareName (name : List Char) : Prop where
  ne_nil : name ≠ []
  bare : ∀ c ∈ name, isBare c = true

/-- Whether a name is a bare one can be evaluated. -/
theorem isBareName_of_all {name : List Char} (hne : name ≠ []) (hall : name.all isBare = true) :
    IsBareName name :=
  ⟨hne, List.all_eq_true.1 hall⟩

/-- A bare character is none of those that have a meaning at the beginning of a key or a line. -/
theorem isBare_ne {c : Char} (h : isBare c = true) :
    isSpace c = false ∧ c ≠ '\n' ∧ c ≠ '\r' ∧ c ≠ '#' ∧ c ≠ '"' ∧ c ≠ '\'' ∧ c ≠ '[' := by
  refine ⟨?_, ?_, ?_, ?_, ?_, ?_, ?_⟩
  · by_contra hspace
    rw [Bool.not_eq_false, isSpace, Bool.or_eq_true, beq_iff_eq, beq_iff_eq] at hspace
    rcases hspace with rfl | rfl <;> exact absurd h (by decide)
  all_goals rintro rfl; exact absurd h (by decide)

theorem skipSpace_cons {c : Char} (hc : isSpace c = false) (rest : List Char) :
    skipSpace (c :: rest) = c :: rest :=
  List.dropWhile_cons_of_neg (by rw [hc]; decide)

/-- A part of a key is read up to the first character that is not bare. -/
theorem readKeyPart_append {name after : List Char} (hname : IsBareName name)
    (hstop : ∀ c ∈ after.head?, isBare c = false) :
    readKeyPart (name ++ after) = some (String.ofList name, after) := by
  -- The name is all that is taken, and what follows it all that is left.
  have htake : (name ++ after).takeWhile isBare = name := by
    rw [List.takeWhile_append_of_pos hname.bare]
    cases after with
    | nil => exact List.append_nil name
    | cons c after => rw [List.takeWhile_cons_of_neg (by simp [hstop c rfl]), List.append_nil]
  have hdrop : (name ++ after).dropWhile isBare = after := by
    rw [List.dropWhile_append_of_pos hname.bare]
    cases after with
    | nil => rfl
    | cons c after => exact List.dropWhile_cons_of_neg (by simp [hstop c rfl])
  obtain ⟨c, more, rfl⟩ := List.exists_cons_of_ne_nil hname.ne_nil
  obtain ⟨-, -, -, -, hquote, hmark, -⟩ := isBare_ne (hname.bare c List.mem_cons_self)
  rw [readKeyPart, htake, hdrop]
  · exact fun _ h => hquote (List.cons.inj h).1
  · exact fun _ h => hmark (List.cons.inj h).1

/-- A bare name is a key, up to the first other character. -/
theorem readKey_append {name after : List Char} (hname : IsBareName name)
    (hstop : ∀ c ∈ after.head?, isBare c = false) (hdot : (skipSpace after).head? ≠ some '.') :
    readKey keyLimit (name ++ after) = some ([String.ofList name], skipSpace after) := by
  have hskip : skipSpace (name ++ after) = name ++ after := by
    obtain ⟨c, more, rfl⟩ := List.exists_cons_of_ne_nil hname.ne_nil
    exact skipSpace_cons (isBare_ne (hname.bare c List.mem_cons_self)).1 _
  -- One of the steps that `keyLimit` allows is enough, since no dot follows.
  show readKey (78 + 1) _ = _
  rw [readKey, hskip, readKeyPart_append hname hstop]
  dsimp only
  split
  · next hafter =>
    rw [hafter] at hdot
    exact absurd rfl hdot
  · rfl

/-! ## Values -/

/-- The text is read as the value, up to the end of the line. -/
structure ReadsAsValue (text : List Char) (value : Toml) : Prop where
  isSpace_head? : ∀ c ∈ text.head?, isSpace c = false
  ne_nil : text ≠ []
  readValue_append : ∀ fuel rest, readValue (fuel + 1) nestingLimit (text ++ '\n' :: rest) =
    some (value, '\n' :: rest)

theorem readsAsValue_boolean (b : Bool) :
    ReadsAsValue (if b then "true".toList else "false".toList) (.boolean b) := by
  cases b
  · exact ⟨by simp [isSpace], by decide, fun _ _ => rfl⟩
  · exact ⟨by simp [isSpace], by decide, fun _ _ => rfl⟩

theorem readsAsValue_toDigits {n : Nat} (hn : n ≤ integerMax) :
    ReadsAsValue (Nat.toDigits 10 n) (.integer n) where
  isSpace_head? := by
    intro c hc
    have hdigit := isDigit_toDigits n c (List.mem_of_mem_head? hc)
    have hblank := Text.ne_of_isDigit hdigit (by decide : ' '.isDigit = false)
    have htab := Text.ne_of_isDigit hdigit (by decide : '\t'.isDigit = false)
    simp [isSpace, hblank, htab]
  ne_nil := Nat.toDigits_ne_nil
  readValue_append := by
    intro fuel rest
    have hscalar := readScalar_toDigits hn rest
    -- A digit in front rules out every value but a scalar.
    generalize htext : Nat.toDigits 10 n ++ '\n' :: rest = text at hscalar ⊢
    cases text with
    | nil => simp at htext
    | cons d text =>
      have hdigit := isDigit_of_toDigits_append htext
      have hstring : ¬(d = '"' ∨ d = '\'') :=
        not_or.2 ⟨Text.ne_of_isDigit hdigit (by decide), Text.ne_of_isDigit hdigit (by decide)⟩
      rw [readValue, if_neg hstring, hscalar]
      · exact fun _ h _ => Text.ne_of_isDigit hdigit (by decide) h
      · exact fun _ h _ => Text.ne_of_isDigit hdigit (by decide) h
      · exact Text.ne_of_isDigit hdigit (by decide)
      · exact Text.ne_of_isDigit hdigit (by decide)

/-- Each of the four forms begins with one of the two marks. -/
theorem quote_eq_cons (text : List Char) :
    ∃ c rest, quote text = c :: rest ∧ (c = '"' ∨ c = '\'') := by
  unfold quote
  cases quotingFor text with
  | basic => exact ⟨'"', _, rfl, .inl rfl⟩
  | literal => exact ⟨'\'', _, rfl, .inr rfl⟩
  | basicLines => exact ⟨'"', _, rfl, .inl rfl⟩
  | literalLines => exact ⟨'\'', _, rfl, .inr rfl⟩

theorem readsAsValue_quote (s : String) : ReadsAsValue (quote s.toList) (.string s) := by
  have hread : ∀ rest,
      readString (quote s.toList ++ '\n' :: rest) = some (s.toList, '\n' :: rest) :=
    fun rest => readString_quote s.toList (by simp) (by simp)
  obtain ⟨c, more, hquote, hc⟩ := quote_eq_cons s.toList
  rw [hquote] at hread ⊢
  refine ⟨?_, List.cons_ne_nil c more, ?_⟩
  · rintro c ⟨⟩
    rcases hc with rfl | rfl <;> rfl
  · intro fuel rest
    have hstring := hread rest
    rw [List.cons_append] at hstring ⊢
    rw [readValue, if_pos hc, hstring]
    · simp
    all_goals rcases hc with rfl | rfl <;> simp

/-! ## Lines -/

theorem readsAs_header {name : List Char} (hname : IsBareName name) :
    ReadsAs ('[' :: (name ++ [']']) ++ ['\n']) [.header [String.ofList name]] := by
  refine readsAs_singleton rfl (by decide) (by decide) fun fuel rest => ?_
  have hkey : readKey keyLimit (name ++ ']' :: '\n' :: rest) =
      some ([String.ofList name], ']' :: '\n' :: rest) :=
    readKey_append hname (by rintro c ⟨⟩; decide) (by rw [skipSpace_cons (by decide)]; simp)
  rw [List.cons_append, List.append_assoc, List.singleton_append, readLine, hkey]
  · rfl
  · -- The key does not begin with another bracket.
    intro after hafter
    obtain ⟨c, more, rfl⟩ := List.exists_cons_of_ne_nil hname.ne_nil
    obtain ⟨-, -, -, -, -, -, hbracket⟩ := isBare_ne (hname.bare c List.mem_cons_self)
    exact hbracket (List.cons.inj hafter).1

theorem readsAs_entry {name value : List Char} {v : Toml} (hname : IsBareName name)
    (hvalue : ReadsAsValue value v) :
    ReadsAs (name ++ " = ".toList ++ value ++ ['\n']) [.entry [String.ofList name] v] := by
  obtain ⟨c, more, hcons⟩ := List.exists_cons_of_ne_nil hname.ne_nil
  have hc : isBare c = true := hname.bare c (hcons ▸ List.mem_cons_self)
  obtain ⟨hspace, hnewline, hreturn, hcomment, -, -, hbracket⟩ := isBare_ne hc
  have hbody : name ++ " = ".toList ++ value = c :: (more ++ " = ".toList ++ value) := by
    rw [hcons]
    rfl
  refine readsAs_singleton hbody hspace ⟨hnewline, hreturn, hcomment⟩ fun fuel rest => ?_
  -- The key ends at the blank before the equals sign, and this blank is skipped with it.
  have hkey : readKey keyLimit (name ++ ' ' :: '=' :: ' ' :: (value ++ '\n' :: rest)) =
      some ([String.ofList name], '=' :: ' ' :: (value ++ '\n' :: rest)) :=
    readKey_append hname (by rintro c ⟨⟩; decide) (by simp [skipSpace, isSpace])
  have hskip : skipSpace (' ' :: (value ++ '\n' :: rest)) = value ++ '\n' :: rest := by
    obtain ⟨d, text, rfl⟩ := List.exists_cons_of_ne_nil hvalue.ne_nil
    exact skipSpace_cons (hvalue.isSpace_head? d rfl) _
  have htext : name ++ " = ".toList ++ value ++ '\n' :: rest =
      name ++ ' ' :: '=' :: ' ' :: (value ++ '\n' :: rest) := by simp
  -- A bare name does not begin with a bracket, so the line is no header.
  have hheader : ∀ after, name ++ ' ' :: '=' :: ' ' :: (value ++ '\n' :: rest) ≠ '[' :: after := by
    intro after hafter
    rw [hcons] at hafter
    exact hbracket (List.cons.inj hafter).1
  rw [htext, readLine, hkey]
  · show (readValue (fuel + 1) nestingLimit (skipSpace (' ' :: (value ++ '\n' :: rest)))).map _ = _
    rw [hskip, hvalue.readValue_append]
    rfl
  · exact fun _ => hheader _
  · exact fun _ => hheader _

end RecordMachine.Toml
