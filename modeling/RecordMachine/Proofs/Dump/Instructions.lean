import RecordMachine.Bytecode
import RecordMachine.Proofs.Text.Separation

/-!
# The text of an instruction

The text of an instruction is its mnemonic, its operand and its comment. It tells the instruction
from every other one (`Instruction.text_inj`) if the instruction is `Legible`: its operand is of the
kind that its opcode needs, the names in it are identifiers, it pushes neither a double nor an
object, and its comment stands on one line. The text of a legible instruction stands on one line,
too (`Instruction.Legible.newline_not_mem`).

An operand is followed by a blank or by nothing, and an identifier or a numeral ends there. A quoted
literal ends at its quote, and a list of fields at its bracket.
-/

namespace RecordMachine

/-! ## Identifiers -/

namespace Text

/-- A character of an identifier: a letter, a digit or an underscore. Every character beyond the
ASCII range counts as one, so the letters and digits of all scripts do. -/
def isWordChar (c : Char) : Bool := c.isAlphanum || c == '_' || 0x80 ≤ c.toNat

/-- A non-empty text of letters, digits and underscores. -/
def isIdentifier (s : String) : Bool := s != "" && s.toList.all isWordChar

/-- What is no letter, digit or underscore does not occur in an identifier. -/
theorem not_mem_of_isIdentifier {s : String} {c : Char} (hs : isIdentifier s = true)
    (hc : isWordChar c = false) : c ∉ s.toList := by
  intro hmem
  simp only [isIdentifier, Bool.and_eq_true, List.all_eq_true] at hs
  rw [hs.2 c hmem] at hc
  cases hc

theorem toList_ne_nil_of_isIdentifier {s : String} (hs : isIdentifier s = true) :
    s.toList ≠ [] := by
  simp only [isIdentifier, Bool.and_eq_true, bne_iff_ne] at hs
  exact fun h => hs.1 (String.toList_eq_nil_iff.1 h)

def commaList (names : List String) : List Char :=
  ", ".toList.intercalate (names.map String.toList)

/-- The first name, and behind a comma the others, if there are any. -/
theorem commaList_cons (name : String) (names : List String) :
    commaList (name :: names)
      = name.toList ++ (if names = [] then [] else ',' :: ' ' :: commaList names) := by
  cases names with
  | nil => simp [commaList]
  | cons next rest => simp [commaList]

/-- Besides the names there are only commas and blanks. Induction on the names. -/
theorem not_mem_commaList {names : List String} (hnames : ∀ n ∈ names, isIdentifier n = true)
    {c : Char} (hword : isWordChar c = false) (hcomma : c ≠ ',') (hblank : c ≠ ' ') :
    c ∉ commaList names := by
  induction names with
  | nil => simp [commaList]
  | cons n names ih =>
    rw [List.forall_mem_cons] at hnames
    have hn := not_mem_of_isIdentifier hnames.1 hword
    have hrest := ih hnames.2
    rw [commaList_cons, List.mem_append]
    split <;> simp [hn, hrest, hcomma, hblank]

/-- Identifiers with commas between them are determined by the whole text. Induction on the first
list: an identifier ends at the next comma. -/
theorem commaList_inj {names others : List String} (hnames : ∀ n ∈ names, isIdentifier n = true)
    (hothers : ∀ n ∈ others, isIdentifier n = true) (h : commaList names = commaList others) :
    names = others := by
  -- No identifier is empty, so that a list with a name is not an empty text.
  have hstart : ∀ {n : String} {rest : List String}, isIdentifier n = true →
      commaList (n :: rest) ≠ [] := by
    intro n rest hn hnil
    rw [commaList_cons] at hnil
    exact toList_ne_nil_of_isIdentifier hn (List.append_eq_nil_iff.1 hnil).1
  induction names generalizing others with
  | nil =>
    cases others with
    | nil => rfl
    | cons n others => exact absurd h.symm (hstart (hothers n List.mem_cons_self))
  | cons m names ih =>
    rw [List.forall_mem_cons] at hnames
    cases others with
    | nil => exact absurd h (hstart hnames.1)
    | cons n others =>
      rw [List.forall_mem_cons] at hothers
      rw [commaList_cons, commaList_cons] at h
      have hparts := append_inj_of_mark (· = ',')
        (fun c hc => ne_of_mem_of_not_mem hc (not_mem_of_isIdentifier hnames.1 (by decide)))
        (fun c hc => ne_of_mem_of_not_mem hc (not_mem_of_isIdentifier hothers.1 (by decide)))
        (by split <;> simp) (by split <;> simp) h
      have hrest : names = others := by
        obtain ⟨_, htail⟩ := hparts
        split at htail <;> split at htail
        · next hm hn => rw [hm, hn]
        · cases htail
        · cases htail
        · simp only [List.cons.injEq, true_and] at htail
          exact ih hnames.2 hothers.2 htail
      rw [String.toList_inj.1 hparts.1, hrest]

end Text

/-! ## Literals -/

namespace Value

/-- Whether the literal of a value tells it from all others: those of doubles round, and an object
is shown like a number. -/
def isLegible : Value → Bool
  | .double _ | .object _ => false
  | _ => true

/-- The tag of the values whose literals start with a character. -/
def tagOfLead (c : Char) : Tag :=
  if c = '\'' then .char
  else if c = '"' then .string
  else if c = 'n' then .nil
  else if c = 't' ∨ c = 'f' then .bool
  else .int

/-- The literal of a value shows its tag in the first character. -/
theorem exists_lead {v : Value} (hv : v.isLegible = true) :
    ∃ c rest, v.literal.toList = c :: rest ∧ tagOfLead c = v.tag := by
  cases v with
  | int n =>
    obtain ⟨c, rest, hc, hstart⟩ := Text.exists_cons_toString_int n.toInt
    refine ⟨c, rest, hc, ?_⟩
    -- Neither the minus sign nor a digit starts a literal of another tag.
    rcases hstart with rfl | hdigit
    · rfl
    · have hne : ∀ d : Char, d.isDigit = false → c ≠ d := fun d => Text.ne_of_isDigit hdigit
      rw [tagOfLead, if_neg (hne _ (by decide)), if_neg (hne _ (by decide)),
        if_neg (hne _ (by decide)), if_neg (not_or.2 ⟨hne _ (by decide), hne _ (by decide)⟩)]
      rfl
  | double x => cases hv
  | bool b => cases b <;> exact ⟨_, _, rfl, rfl⟩
  | char c => exact ⟨'\'', _, String.toList_ofList, rfl⟩
  | string s => exact ⟨'"', _, String.toList_ofList, rfl⟩
  | object id => cases hv
  | nil => exact ⟨_, _, rfl, rfl⟩

/-- A literal that a blank or nothing follows can be read back. -/
theorem literal_append_inj {v w : Value} {s t : List Char} (hv : v.isLegible = true)
    (hw : w.isLegible = true) (hs : ∀ c ∈ s.head?, c = ' ') (ht : ∀ c ∈ t.head?, c = ' ')
    (h : v.literal.toList ++ s = w.literal.toList ++ t) : v = w ∧ s = t := by
  -- The first character decides the tag; then literals of one tag are compared.
  have htag : v.tag = w.tag := by
    obtain ⟨c, _, hc, hcv⟩ := exists_lead hv
    obtain ⟨d, _, hd, hdw⟩ := exists_lead hw
    rw [hc, hd] at h
    rw [← hcv, ← hdw, (List.cons.inj h).1]
  cases v with
  | int m =>
    cases w <;> cases htag
    rename_i n
    have hblank : ∀ k : Int64, ∀ c ∈ (Value.int k).literal.toList, ¬c = ' ' := fun k c hc =>
      ne_of_mem_of_not_mem hc (Text.not_mem_toString_int k.toInt (by decide) (by decide))
    obtain ⟨htext, hst⟩ := Text.append_inj_of_mark (· = ' ') (hblank m) (hblank n) hs ht h
    have hmn : m = n := Int64.toInt_inj.1 (Text.int_eq_of_toString htext)
    exact ⟨by rw [hmn], hst⟩
  | double x => cases hv
  | bool b =>
    cases w <;> cases htag
    rename_i b'
    cases b <;> cases b' <;> simp_all [literal, text]
  | char c =>
    cases w <;> cases htag
    rename_i d
    simp only [literal, Text.quoted, String.toList_ofList, List.cons_append, List.append_assoc,
      List.cons.injEq, true_and, List.nil_append] at h
    obtain ⟨hcd, hst⟩ := Text.escape_append_inj (.inl rfl) h
    exact ⟨by rw [(List.cons.inj hcd).1], hst⟩
  | string a =>
    cases w <;> cases htag
    rename_i b
    simp only [literal, Text.quoted, String.toList_ofList, List.cons_append, List.append_assoc,
      List.cons.injEq, true_and, List.nil_append] at h
    obtain ⟨hab, hst⟩ := Text.escape_append_inj (.inr rfl) h
    exact ⟨by rw [String.toList_inj.1 hab], hst⟩
  | object id => cases hv
  | nil =>
    cases w <;> cases htag
    exact ⟨rfl, List.append_cancel_left h⟩

theorem newline_not_mem_literal {v : Value} (hv : v.isLegible = true) :
    '\n' ∉ v.literal.toList := by
  cases v with
  | int n => exact Text.not_mem_toString_int n.toInt (by decide) (by decide)
  | double x => cases hv
  | bool b => cases b <;> decide
  | char c => exact Text.newline_not_mem_quoted (.inl rfl) _
  | string s => exact Text.newline_not_mem_quoted (.inr rfl) _
  | object id => cases hv
  | nil => decide

end Value

/-! ## Operands -/

namespace Operand

/-- Whether the text of an operand tells it from all others of its kind. -/
def isLegible : Operand → Bool
  | .value v => v.isLegible
  | .slot _ | .address _ => true
  | .name word => Text.isIdentifier word
  | .fields names => names.all Text.isIdentifier

/-- An address is shown as a numeral, or as a mark if it is pending. -/
theorem not_mem_text_address (target : Nat) {c : Char} (hmark : c ≠ '?')
    (hdigit : c.isDigit = false) : c ∉ (address target).text.toList := by
  simp only [text]
  split
  · exact fun hc => hmark (List.mem_singleton.1 hc)
  · exact Text.not_mem_toString target hdigit

/-- An address that is not yet known is shown unlike every one that is. -/
theorem address_inj {m n : Nat} (h : (address m).text.toList = (address n).text.toList) :
    m = n := by
  have hunknown : ∀ k : Nat, (toString k).toList ≠ ['?'] := by
    intro k hk
    have hmem : '?' ∈ (toString k).toList := hk ▸ List.mem_cons_self
    exact Text.not_mem_toString k (by decide) hmem
  simp only [text] at h
  split at h <;> split at h
  · next hm hn => rw [hm, hn]
  · exact absurd h.symm (hunknown n)
  · exact absurd h (hunknown m)
  · exact Text.nat_eq_of_toString h

theorem toList_text_fields (names : List String) :
    (fields names).text.toList = '[' :: (Text.commaList names ++ [']']) := by
  simp [text, Text.commaList]

/-- An operand that a blank or nothing follows can be read back, if its kind is known. -/
theorem text_append_inj {o o' : Operand} {s t : List Char} (hkind : o.kind = o'.kind)
    (ho : o.isLegible = true) (ho' : o'.isLegible = true) (hs : ∀ c ∈ s.head?, c = ' ')
    (ht : ∀ c ∈ t.head?, c = ' ') (h : o.text.toList ++ s = o'.text.toList ++ t) :
    o = o' ∧ s = t := by
  cases o with
  | value v =>
    cases o' <;> cases hkind
    obtain ⟨hvw, hst⟩ := Value.literal_append_inj ho ho' hs ht h
    exact ⟨by rw [hvw], hst⟩
  | slot m =>
    cases o' <;> cases hkind
    rename_i n
    -- A numeral contains no blank, so it ends where the blank or the text ends.
    have hblank : ∀ k : Nat, ∀ c ∈ (toString k).toList, ¬c = ' ' := fun k c hc =>
      ne_of_mem_of_not_mem hc (Text.not_mem_toString k (by decide))
    obtain ⟨htext, hst⟩ := Text.append_inj_of_mark (· = ' ') (hblank m) (hblank n) hs ht h
    exact ⟨by rw [Text.nat_eq_of_toString htext], hst⟩
  | address m =>
    cases o' <;> cases hkind
    rename_i n
    have hblank : ∀ k : Nat, ∀ c ∈ (address k).text.toList, ¬c = ' ' := fun k c hc =>
      ne_of_mem_of_not_mem hc (not_mem_text_address k (by decide) (by decide))
    obtain ⟨htext, hst⟩ := Text.append_inj_of_mark (· = ' ') (hblank m) (hblank n) hs ht h
    exact ⟨by rw [address_inj htext], hst⟩
  | name a =>
    cases o' <;> cases hkind
    rename_i b
    have hblank : ∀ n : String, Text.isIdentifier n = true → ∀ c ∈ n.toList, ¬c = ' ' :=
      fun n hn c hc => ne_of_mem_of_not_mem hc (Text.not_mem_of_isIdentifier hn (by decide))
    obtain ⟨htext, hst⟩ := Text.append_inj_of_mark (· = ' ') (hblank a ho) (hblank b ho') hs ht h
    exact ⟨by rw [String.toList_inj.1 htext], hst⟩
  | fields as =>
    cases o' <;> cases hkind
    rename_i bs
    have has : ∀ n ∈ as, Text.isIdentifier n = true := List.all_eq_true.1 ho
    have hbs : ∀ n ∈ bs, Text.isIdentifier n = true := List.all_eq_true.1 ho'
    -- No identifier contains the bracket that closes the list.
    have hclosed : ∀ ns : List String, (∀ n ∈ ns, Text.isIdentifier n = true) →
        ∀ c ∈ Text.commaList ns, ¬c = ']' := fun ns hns c hc =>
      ne_of_mem_of_not_mem hc (Text.not_mem_commaList hns (by decide) (by decide) (by decide))
    rw [toList_text_fields, toList_text_fields] at h
    simp only [List.cons_append, List.append_assoc, List.cons.injEq, true_and] at h
    obtain ⟨htext, hst⟩ := Text.append_inj_of_mark (· = ']') (hclosed as has) (hclosed bs hbs)
      (by simp) (by simp) h
    refine ⟨by rw [Text.commaList_inj has hbs htext], ?_⟩
    simpa using hst

theorem newline_not_mem_text {o : Operand} (ho : o.isLegible = true) : '\n' ∉ o.text.toList := by
  cases o with
  | value v => exact Value.newline_not_mem_literal ho
  | slot n => exact Text.not_mem_toString n (by decide)
  | address n => exact not_mem_text_address n (by decide) (by decide)
  | name word => exact Text.not_mem_of_isIdentifier ho (by decide)
  | fields names =>
    have hnames :=
      Text.not_mem_commaList (c := '\n') (List.all_eq_true.1 ho) (by decide) (by decide)
      (by decide)
    rw [toList_text_fields]
    simp [hnames]

end Operand

/-! ## Instructions -/

/-- Mnemonics can be read back, hence no two opcodes share one. -/
theorem Opcode.ofMnemonic?_mnemonic (op : Opcode) : ofMnemonic? op.mnemonic = some op := by
  cases op <;> rfl

/-- A mnemonic consists of capital letters. In particular there is no blank in it. -/
theorem Opcode.mem_mnemonic {op : Opcode} {c : Char} (h : c ∈ op.mnemonic.toList) :
    c.isUpper = true := by
  have hall : op.mnemonic.toList.all Char.isUpper = true := by
    cases op <;> rfl
  exact List.all_eq_true.1 hall c h

namespace Instruction

/-- What a dump shows of the instruction tells it from all others. -/
structure Legible (i : Instruction) : Prop where
  kind : i.operand.map Operand.kind = i.opcode.operandKind
  operand : ∀ o ∈ i.operand, o.isLegible = true
  comment : ∀ c ∈ i.comment, '\n' ∉ c.toList

def operandPart : Option Operand → List Char
  | none => []
  | some o => ' ' :: o.text.toList

def commentPart : Option String → List Char
  | none => []
  | some c => ' ' :: ' ' :: '/' :: '/' :: ' ' :: c.toList

/-- The three parts of a text. The last two may be empty. -/
theorem toList_text (i : Instruction) :
    i.text.toList
      = i.opcode.mnemonic.toList ++ (operandPart i.operand ++ commentPart i.comment) := by
  unfold text operandPart commentPart
  cases i.operand <;> cases i.comment <;> simp

/-- A comment begins with a blank, which ends the operand before it. -/
theorem head?_commentPart (comment : Option String) :
    ∀ c ∈ (commentPart comment).head?, c = ' ' := by
  cases comment <;> simp [commentPart]

/-- A comment can be read back from its part; no comment is not an empty one. -/
theorem commentPart_inj {a b : Option String} (h : commentPart a = commentPart b) : a = b := by
  cases a <;> cases b <;> simp_all [commentPart, String.toList_inj]

/-- Legible instructions with the same text are the same. -/
theorem text_inj {i j : Instruction} (hi : i.Legible) (hj : j.Legible) (h : i.text = j.text) :
    i = j := by
  have hlists := congrArg String.toList h
  rw [toList_text, toList_text] at hlists
  have hblank : ∀ op : Opcode, ∀ c ∈ op.mnemonic.toList, ¬c = ' ' := by
    rintro op c hc rfl
    exact absurd (Opcode.mem_mnemonic hc) (by decide)
  -- Behind the mnemonic comes a blank or nothing.
  have hparts : ∀ k : Instruction,
      ∀ c ∈ (operandPart k.operand ++ commentPart k.comment).head?, c = ' ' := by
    intro k
    cases k.operand with
    | none => exact head?_commentPart k.comment
    | some o => simp [operandPart]
  obtain ⟨hmnemonic, hrest⟩ := Text.append_inj_of_mark (· = ' ') (hblank i.opcode)
    (hblank j.opcode) (hparts i) (hparts j) hlists
  have hopcode : i.opcode = j.opcode := by
    have hround := Opcode.ofMnemonic?_mnemonic i.opcode
    rw [String.toList_inj.1 hmnemonic, Opcode.ofMnemonic?_mnemonic] at hround
    exact (Option.some.inj hround).symm
  -- The opcode says which kind of operand there is, and the operand is read back by its kind.
  have hkinds : i.operand.map Operand.kind = j.operand.map Operand.kind := by
    rw [hi.kind, hj.kind, hopcode]
  have htails : i.operand = j.operand ∧ commentPart i.comment = commentPart j.comment := by
    have hio := hi.operand
    have hjo := hj.operand
    generalize i.operand = a at hkinds hrest hio
    generalize j.operand = b at hkinds hrest hjo
    cases a with
    | none =>
      cases b with
      | none => exact ⟨rfl, hrest⟩
      | some o' => cases hkinds
    | some o =>
      cases b with
      | none => cases hkinds
      | some o' =>
        obtain ⟨ho, hcomment⟩ := Operand.text_append_inj (Option.some.inj hkinds) (hio o rfl)
          (hjo o' rfl) (head?_commentPart _) (head?_commentPart _) (List.cons.inj hrest).2
        exact ⟨by rw [ho], hcomment⟩
  have hcomment : i.comment = j.comment := commentPart_inj htails.2
  cases i
  cases j
  simp_all

/-- No part of the text of a legible instruction has a line break. -/
theorem Legible.newline_not_mem {i : Instruction} (hi : i.Legible) : '\n' ∉ i.text.toList := by
  have hmnemonic : '\n' ∉ i.opcode.mnemonic.toList :=
    fun hmem => absurd (Opcode.mem_mnemonic hmem) (by decide)
  have hoperand : '\n' ∉ operandPart i.operand := by
    have hio := hi.operand
    cases hcase : i.operand with
    | none => simp [operandPart]
    | some o => simpa [operandPart] using Operand.newline_not_mem_text (hio o hcase)
  have hcomment : '\n' ∉ commentPart i.comment := by
    have hic := hi.comment
    cases hcase : i.comment with
    | none => simp [commentPart]
    | some c => simpa [commentPart] using hic c hcase
  rw [toList_text]
  simp [hmnemonic, hoperand, hcomment]

end Instruction

end RecordMachine
