import RecordMachine.Json.Access
import RecordMachine.Proofs.Json.Tokens

/-!
# Reading documents that were written

A document is read back from the text that is written for it (`parse?_render`), if it has no
doubles, its whole numbers fit a word, and it nests no deeper than the reader goes.

What follows a value in a written document is a comma, a line break or the end, so a number never
runs on into it (`Follows`). The reader starts every value by dropping blanks; the statements here
are about what it sees after that. The bound on nested calls is twice the length of the text that is
left.
-/

namespace RecordMachine.Json

/-! ## Plain documents -/

mutual

/-- Whether a document has no doubles, and only whole numbers that fit a word. -/
@[simp] def isPlain : Json → Bool
  | .int n => isWord n
  | .double _ => false
  | .array items => isPlainAll items
  | .object members => isPlainMembers members
  | _ => true

@[simp] def isPlainAll : List Json → Bool
  | [] => true
  | item :: rest => isPlain item && isPlainAll rest

@[simp] def isPlainMembers : List (String × Json) → Bool
  | [] => true
  | (_, value) :: rest => isPlain value && isPlainMembers rest

end

/-! ## The text of a document -/

def itemsText (level : Nat) : List Json → List Char
  | [] => []
  | item :: rest => write level item ++ writeItems level rest

def membersText (level : Nat) : List (String × Json) → List Char
  | [] => []
  | (key, value) :: rest =>
    stringText key ++ ':' :: ' ' :: (write level value ++ writeMembers level rest)

/-- An array with items stands between brackets on lines of their own. -/
theorem write_array {items : List Json} (hitems : items ≠ []) (level : Nat) :
    write level (.array items)
      = '[' :: (newLine (level + 1)
          ++ (itemsText (level + 1) items ++ (newLine level ++ [']']))) := by
  cases items with
  | nil => exact absurd rfl hitems
  | cons item rest => simp [write, itemsText]

/-- An object with members stands between braces on lines of their own. -/
theorem write_object {members : List (String × Json)} (hmembers : members ≠ []) (level : Nat) :
    write level (.object members)
      = '\x7b' :: (newLine (level + 1)
          ++ (membersText (level + 1) members ++ (newLine level ++ ['\x7d']))) := by
  cases members with
  | nil => exact absurd rfl hmembers
  | cons member rest => simp [write, membersText]

/-- The remaining items come after a comma, on the next line. -/
theorem writeItems_eq {items : List Json} (hitems : items ≠ []) (level : Nat) :
    writeItems level items = ',' :: (newLine level ++ itemsText level items) := by
  cases items with
  | nil => exact absurd rfl hitems
  | cons item rest => simp [writeItems, itemsText]

theorem writeMembers_eq {members : List (String × Json)} (hmembers : members ≠ []) (level : Nat) :
    writeMembers level members = ',' :: (newLine level ++ membersText level members) := by
  cases members with
  | nil => exact absurd rfl hmembers
  | cons member rest => simp [writeMembers, membersText]

/-! ## Blanks -/

/-- Whether a character separates tokens. -/
def isBlank (c : Char) : Bool := c == ' ' || c == '\n' || c == '\r' || c == '\t'

/-- Whether a character may be the first one of a value. -/
def isLead (c : Char) : Bool := !isBlank c && c != ']'

/-- A digit starts a number; it is neither a blank nor a bracket. -/
theorem isLead_of_isDigit {c : Char} (hc : c.isDigit = true) : isLead c = true := by
  have hne : ∀ d : Char, d.isDigit = false → c ≠ d := fun d => Text.ne_of_isDigit hc
  simp [isLead, isBlank, hne ' ' rfl, hne '\n' rfl, hne '\r' rfl, hne '\t' rfl, hne ']' rfl]

/-- A line break and the indentation after it are skipped. -/
theorem skipBlank_newLine (level : Nat) (text : List Char) :
    skipBlank (newLine level ++ text) = skipBlank text := by
  have hblank : ∀ c ∈ newLine level, isBlank c = true := by
    intro c hc
    rcases List.mem_cons.1 hc with rfl | hc
    · rfl
    · rw [List.eq_of_mem_replicate hc]
      rfl
  exact List.dropWhile_append_of_pos hblank

theorem skipBlank_cons {c : Char} (hc : isBlank c = false) (text : List Char) :
    skipBlank (c :: text) = c :: text :=
  List.dropWhile_cons_of_neg (by simpa [isBlank] using hc)

/-- The text of a plain document starts with a character that may start a value. -/
theorem exists_lead {j : Json} (hj : j.isPlain = true) (level : Nat) :
    ∃ c text, write level j = c :: text ∧ isLead c = true := by
  cases j with
  | null => exact ⟨_, _, rfl, by decide⟩
  | bool b => cases b <;> exact ⟨_, _, rfl, by decide⟩
  | int n =>
    obtain ⟨c, text, hc, hstart⟩ := Text.exists_cons_toString_int n
    refine ⟨c, text, hc, ?_⟩
    rcases hstart with rfl | hdigit
    · decide
    · exact isLead_of_isDigit hdigit
  | double x => cases hj
  | string s => exact ⟨_, _, rfl, by decide⟩
  | array items =>
    -- An empty array is written without a line break, but it begins with the same bracket.
    by_cases hitems : items = []
    · rw [hitems]
      exact ⟨_, _, rfl, by decide⟩
    · exact ⟨_, _, write_array hitems level, by decide⟩
  | object members =>
    by_cases hmembers : members = []
    · rw [hmembers]
      exact ⟨_, _, rfl, by decide⟩
    · exact ⟨_, _, write_object hmembers level, by decide⟩

/-! ## Reading -/

section Reading

variable {fuel depth level : Nat} {text rest : List Char}

/-- A value that starts with a digit is read as a number without a sign. -/
theorem readValue_of_isDigit {c : Char} (hc : c.isDigit = true)
    (htext : skipBlank text = c :: rest) :
    readValue (fuel + 1) depth text = readNumber false (c :: rest) := by
  rw [readValue, htext]
  split
  case h_8 => rfl
  all_goals
    next heq =>
      -- None of the other forms starts with a digit.
      obtain ⟨rfl, _⟩ := List.cons.inj heq
      cases hc

/-- A whole number is read with its sign, or without one. -/
theorem readValue_int {n : Int} (hn : isWord n = true) (hrest : Follows rest)
    (htext : skipBlank text = (toString n).toList ++ rest) :
    readValue (fuel + 1) depth text = some (.int n, rest) := by
  have hread := readNumber_natAbs hn hrest
  rw [Text.toList_toString_int] at htext
  by_cases hneg : n < 0
  · rw [if_pos hneg, List.cons_append] at htext
    rw [decide_eq_true hneg] at hread
    rw [readValue, htext]
    exact hread
  · rw [if_neg hneg] at htext
    rw [decide_eq_false hneg] at hread
    obtain ⟨c, digits, hc, hdigit⟩ := Text.exists_cons_toString n.natAbs
    rw [hc, List.cons_append] at htext hread
    rw [readValue_of_isDigit hdigit htext]
    exact hread

/-- A string is read from its opening quote on. -/
theorem readValue_string {s : String} (htext : skipBlank text = stringText s ++ rest) :
    readValue (fuel + 1) depth text = some (.string s, rest) := by
  rw [stringText, List.cons_append, List.append_assoc] at htext
  rw [readValue, htext]
  simp only [List.singleton_append, readString_escape, Option.map_some]

/-- An array with items is read by reading its items. -/
theorem readValue_array {inside more : List Char} {c : Char} {items : List Json}
    (htext : skipBlank text = '[' :: inside) (hinside : skipBlank inside = c :: more)
    (hc : isLead c = true) (hitems : readItems fuel depth (c :: more) = some (items, rest)) :
    readValue (fuel + 1) (depth + 1) text = some (.array items, rest) := by
  rw [readValue, htext]
  simp only [hinside]
  split
  · next heq =>
    obtain ⟨rfl, _⟩ := List.cons.inj heq
    cases hc
  · rw [hitems]
    rfl

/-- An object with members is read by reading its members. -/
theorem readValue_object {inside more : List Char} {members : List (String × Json)}
    (htext : skipBlank text = '\x7b' :: inside) (hinside : skipBlank inside = '"' :: more)
    (hmembers : readMembers fuel depth ('"' :: more) = some (members, rest)) :
    readValue (fuel + 1) (depth + 1) text = some (.object members, rest) := by
  rw [readValue, htext]
  simp only [hinside]
  show Option.map _ (readMembers fuel depth ('"' :: more)) = _
  rw [hmembers]
  rfl

/-- An item before the bracket is the last one. -/
theorem readItems_last {item : Json} {tail : List Char}
    (hitem : readValue fuel depth text = some (item, tail)) (htail : skipBlank tail = ']' :: rest) :
    readItems (fuel + 1) depth text = some ([item], rest) := by
  rw [readItems, hitem]
  simp only [htail]

/-- An item before a comma is followed by others. -/
theorem readItems_next {item : Json} {items : List Json} {tail more : List Char}
    (hitem : readValue fuel depth text = some (item, tail)) (htail : skipBlank tail = ',' :: more)
    (hmore : readItems fuel depth more = some (items, rest)) :
    readItems (fuel + 1) depth text = some (item :: items, rest) := by
  rw [readItems, hitem]
  simp only [htail, hmore, Option.map_some]

theorem readMembers_last {key : String} {value : Json} {content tail : List Char}
    (htext : skipBlank text = stringText key ++ ':' :: content)
    (hvalue : readValue fuel depth content = some (value, tail))
    (htail : skipBlank tail = '\x7d' :: rest) :
    readMembers (fuel + 1) depth text = some ([(key, value)], rest) := by
  rw [stringText, List.cons_append, List.append_assoc, List.singleton_append] at htext
  rw [readMembers, htext]
  simp only [readString_escape, skipBlank_cons (c := ':') rfl, hvalue, htail]

theorem readMembers_next {key : String} {value : Json} {members : List (String × Json)}
    {content tail more : List Char} (htext : skipBlank text = stringText key ++ ':' :: content)
    (hvalue : readValue fuel depth content = some (value, tail))
    (htail : skipBlank tail = ',' :: more)
    (hmore : readMembers fuel depth more = some (members, rest)) :
    readMembers (fuel + 1) depth text = some ((key, value) :: members, rest) := by
  rw [stringText, List.cons_append, List.append_assoc, List.singleton_append] at htext
  rw [readMembers, htext]
  simp only [readString_escape, skipBlank_cons (c := ':') rfl, hvalue, htail, hmore,
    Option.map_some]

/-- What follows an item is the next one or the end of its line. -/
theorem follows_writeItems (items : List Json) (outer : Nat) (after : List Char) :
    Follows (writeItems level items ++ (newLine outer ++ after)) := by
  cases items with
  | nil => exact follows_newLine outer after
  | cons item rest =>
    rw [writeItems_eq (List.cons_ne_nil _ _)]
    exact follows_comma _

/-- What follows a member is the next one or the end of its line. -/
theorem follows_writeMembers (members : List (String × Json)) (outer : Nat) (after : List Char) :
    Follows (writeMembers level members ++ (newLine outer ++ after)) := by
  cases members with
  | nil => exact follows_newLine outer after
  | cons member rest =>
    rw [writeMembers_eq (List.cons_ne_nil _ _)]
    exact follows_comma _

/-- The items of an array start with a value, not with the bracket. -/
theorem exists_lead_itemsText {items : List Json} (hitems : items ≠ [])
    (hplain : isPlainAll items = true) (level : Nat) (after : List Char) :
    ∃ c more, itemsText level items ++ after = c :: more ∧ isLead c = true := by
  cases items with
  | nil => exact absurd rfl hitems
  | cons item rest =>
    rw [isPlainAll, Bool.and_eq_true] at hplain
    obtain ⟨c, more, hc, hlead⟩ := exists_lead hplain.1 level
    rw [itemsText, hc]
    exact ⟨c, _, rfl, hlead⟩

theorem exists_lead_membersText {members : List (String × Json)} (hmembers : members ≠ [])
    (level : Nat) (after : List Char) :
    ∃ more, membersText level members ++ after = '"' :: more := by
  cases members with
  | nil => exact absurd rfl hmembers
  | cons member rest => exact ⟨_, rfl⟩

theorem isBlank_of_isLead {c : Char} (hc : isLead c = true) : isBlank c = false := by
  simp only [isLead, Bool.and_eq_true, Bool.not_eq_true'] at hc
  exact hc.1

/-- A document has at least one character, so that reading it uses up some of the bound. -/
theorem length_write_pos {j : Json} (hj : j.isPlain = true) (level : Nat) :
    1 ≤ (write level j).length := by
  obtain ⟨c, text, hc, _⟩ := exists_lead hj level
  rw [hc, List.length_cons]
  omega

end Reading

-- The induction is on the document. The three statements differ in what closes the text: nothing,
-- the bracket of an array, or that of an object, which the reader of the list takes with it.
mutual

/-- What is written for a plain document is read as the document, up to what follows it. -/
theorem readValue_write : ∀ (j : Json) {fuel depth level : Nat} {text rest : List Char},
    j.isPlain = true → j.depth ≤ depth → 2 * (write level j).length ≤ fuel + 1 → Follows rest →
    skipBlank text = write level j ++ rest → readValue (fuel + 1) depth text = some (j, rest)
  | .null, fuel, depth, level, text, rest, _, _, _, _, htext => by
    have hnull : skipBlank text = 'n' :: 'u' :: 'l' :: 'l' :: rest := htext
    rw [readValue, hnull]
    rfl
  | .bool true, fuel, depth, level, text, rest, _, _, _, _, htext => by
    have htrue : skipBlank text = 't' :: 'r' :: 'u' :: 'e' :: rest := htext
    rw [readValue, htrue]
    rfl
  | .bool false, fuel, depth, level, text, rest, _, _, _, _, htext => by
    have hfalse : skipBlank text = 'f' :: 'a' :: 'l' :: 's' :: 'e' :: rest := htext
    rw [readValue, hfalse]
    rfl
  | .int n, fuel, depth, level, text, rest, hplain, _, _, hrest, htext =>
    readValue_int hplain hrest htext
  | .double x, fuel, depth, level, text, rest, hplain, _, _, _, _ => by cases hplain
  | .string s, fuel, depth, level, text, rest, _, _, _, _, htext => readValue_string htext
  | .array items, fuel, 0, level, text, rest, _, hdepth, _, _, _ => by
    rw [Json.depth] at hdepth
    omega
  | .array items, fuel, depth + 1, level, text, rest, hplain, hdepth, hfuel, _, htext => by
    by_cases hitems : items = []
    · rw [hitems] at htext ⊢
      have hempty : skipBlank text = '[' :: ']' :: rest := htext
      rw [readValue, hempty]
      rfl
    · rw [Json.depth] at hdepth
      rw [write_array hitems] at hfuel htext
      simp only [List.length_cons, List.length_append, List.length_nil] at hfuel
      simp only [List.cons_append, List.append_assoc, List.nil_append] at htext
      obtain ⟨fuel, rfl⟩ : ∃ f, fuel = f + 1 := ⟨fuel - 1, by omega⟩
      -- The items start with no bracket, so the reader does not take the array for an empty one.
      obtain ⟨c, more, hc, hlead⟩ :=
        exists_lead_itemsText hitems hplain (level + 1) (newLine level ++ ']' :: rest)
      have hlead' : skipBlank (c :: more) = c :: more := skipBlank_cons (isBlank_of_isLead hlead) _
      have hread : readItems (fuel + 1) depth (c :: more) = some (items, rest) :=
        readItems_write items hitems hplain (by omega) (by omega) (hlead'.trans hc.symm)
      refine readValue_array htext ?_ hlead hread
      rw [skipBlank_newLine, hc, hlead']
  | .object members, fuel, 0, level, text, rest, _, hdepth, _, _, _ => by
    rw [Json.depth] at hdepth
    omega
  | .object members, fuel, depth + 1, level, text, rest, hplain, hdepth, hfuel, _, htext => by
    by_cases hmembers : members = []
    · rw [hmembers] at htext ⊢
      have hempty : skipBlank text = '\x7b' :: '\x7d' :: rest := htext
      rw [readValue, hempty]
      rfl
    · rw [Json.depth] at hdepth
      rw [write_object hmembers] at hfuel htext
      simp only [List.length_cons, List.length_append, List.length_nil] at hfuel
      simp only [List.cons_append, List.append_assoc, List.nil_append] at htext
      obtain ⟨fuel, rfl⟩ : ∃ f, fuel = f + 1 := ⟨fuel - 1, by omega⟩
      obtain ⟨more, hmore⟩ :=
        exists_lead_membersText hmembers (level + 1) (newLine level ++ '\x7d' :: rest)
      have hlead : skipBlank ('"' :: more) = '"' :: more := skipBlank_cons rfl _
      have hread : readMembers (fuel + 1) depth ('"' :: more) = some (members, rest) :=
        readMembers_write members hmembers hplain (by omega) (by omega) (hlead.trans hmore.symm)
      refine readValue_object htext ?_ hread
      rw [skipBlank_newLine, hmore, hlead]

/-- The items of an array are read with the bracket that closes it. -/
theorem readItems_write : ∀ (items : List Json) {fuel depth level outer : Nat}
    {text rest : List Char}, items ≠ [] → isPlainAll items = true → depthAll items ≤ depth →
    2 * (itemsText level items).length ≤ fuel →
    skipBlank text = itemsText level items ++ (newLine outer ++ ']' :: rest) →
    readItems (fuel + 1) depth text = some (items, rest)
  | [], _, _, _, _, _, _, hitems, _, _, _, _ => absurd rfl hitems
  | item :: items, fuel, depth, level, outer, text, rest, _, hplain, hdepth, hfuel, htext => by
    rw [isPlainAll, Bool.and_eq_true] at hplain
    rw [depthAll, Nat.max_le] at hdepth
    rw [itemsText, List.length_append] at hfuel
    rw [itemsText, List.append_assoc] at htext
    -- An item takes at least one character, so one more call is left for it.
    have hpos := length_write_pos hplain.1 level
    obtain ⟨fuel, rfl⟩ : ∃ f, fuel = f + 1 := ⟨fuel - 1, by omega⟩
    have hitem : readValue (fuel + 1) depth text
        = some (item, writeItems level items ++ (newLine outer ++ ']' :: rest)) :=
      readValue_write item hplain.1 hdepth.1 (by omega) (follows_writeItems items outer _) htext
    by_cases hitems : items = []
    · rw [hitems] at hitem ⊢
      refine readItems_last hitem ?_
      rw [writeItems, List.nil_append, skipBlank_newLine]
      exact skipBlank_cons rfl _
    · rw [writeItems_eq hitems] at hfuel hitem
      simp only [List.length_cons, List.length_append] at hfuel
      simp only [List.cons_append, List.append_assoc] at hitem
      obtain ⟨c, more, hc, hlead⟩ :=
        exists_lead_itemsText hitems hplain.2 level (newLine outer ++ ']' :: rest)
      have hskip : skipBlank
            (newLine level ++ (itemsText level items ++ (newLine outer ++ ']' :: rest)))
          = itemsText level items ++ (newLine outer ++ ']' :: rest) := by
        rw [skipBlank_newLine, hc, skipBlank_cons (isBlank_of_isLead hlead)]
      have hmore := readItems_write items hitems hplain.2 hdepth.2
        (show _ ≤ fuel by omega) hskip
      exact readItems_next hitem (skipBlank_cons rfl _) hmore

/-- The members of an object are read with the brace that closes it. -/
theorem readMembers_write : ∀ (members : List (String × Json)) {fuel depth level outer : Nat}
    {text rest : List Char}, members ≠ [] → isPlainMembers members = true →
    depthMembers members ≤ depth → 2 * (membersText level members).length ≤ fuel →
    skipBlank text = membersText level members ++ (newLine outer ++ '\x7d' :: rest) →
    readMembers (fuel + 1) depth text = some (members, rest)
  | [], _, _, _, _, _, _, hmembers, _, _, _, _ => absurd rfl hmembers
  | (key, value) :: members, fuel, depth, level, outer, text, rest, _, hplain, hdepth, hfuel,
      htext => by
    rw [isPlainMembers, Bool.and_eq_true] at hplain
    rw [depthMembers, Nat.max_le] at hdepth
    simp only [membersText, List.length_append, List.length_cons] at hfuel
    simp only [membersText, List.append_assoc, List.cons_append] at htext
    have hpos := length_write_pos hplain.1 level
    obtain ⟨fuel, rfl⟩ : ∃ f, fuel = f + 1 := ⟨fuel - 1, by omega⟩
    -- Between the colon and the value stands one blank.
    have hcontent : skipBlank (' ' :: (write level value
          ++ (writeMembers level members ++ (newLine outer ++ '\x7d' :: rest))))
        = write level value
          ++ (writeMembers level members ++ (newLine outer ++ '\x7d' :: rest)) := by
      obtain ⟨c, more, hc, hlead⟩ := exists_lead hplain.1 level
      rw [hc]
      exact skipBlank_cons (isBlank_of_isLead hlead) _
    have hvalue := readValue_write value hplain.1 hdepth.1 (show _ ≤ fuel + 1 by omega)
      (follows_writeMembers members outer ('\x7d' :: rest)) hcontent
    by_cases hmembers : members = []
    · rw [hmembers] at htext hvalue ⊢
      refine readMembers_last htext hvalue ?_
      rw [writeMembers, List.nil_append, skipBlank_newLine]
      exact skipBlank_cons rfl _
    · rw [writeMembers_eq hmembers] at hfuel htext hvalue
      simp only [List.length_cons, List.length_append] at hfuel
      simp only [List.cons_append, List.append_assoc] at htext hvalue
      obtain ⟨more, hlead⟩ :=
        exists_lead_membersText hmembers level (newLine outer ++ '\x7d' :: rest)
      have hskip : skipBlank
            (newLine level ++ (membersText level members ++ (newLine outer ++ '\x7d' :: rest)))
          = membersText level members ++ (newLine outer ++ '\x7d' :: rest) := by
        rw [skipBlank_newLine, hlead, skipBlank_cons rfl]
      have hmore := readMembers_write members hmembers hplain.2 hdepth.2
        (show _ ≤ fuel by omega) hskip
      exact readMembers_next htext hvalue (skipBlank_cons rfl _) hmore

end

/-- A plain document that nests no deeper than the reader goes is read back from its text. -/
theorem parse?_render {j : Json} (hplain : j.isPlain = true) (hdepth : j.depth ≤ nestingLimit) :
    parse? j.render.toList = some j := by
  have htext : skipBlank (write 0 j) = write 0 j ++ [] := by
    obtain ⟨c, text, hc, hlead⟩ := exists_lead hplain 0
    rw [hc, skipBlank_cons (isBlank_of_isLead hlead), List.append_nil]
  have hread : readValue (2 * (write 0 j).length + 2) nestingLimit (write 0 j) = some (j, []) :=
    readValue_write j hplain hdepth (by omega) follows_nil htext
  rw [render, String.toList_ofList, parse?, hread]
  rfl

end RecordMachine.Json
