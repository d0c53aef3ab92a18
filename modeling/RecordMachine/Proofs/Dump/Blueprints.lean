import RecordMachine.Proofs.Dump.Instructions

/-!
# The lines of a dump

A dump consists of lines (`Bytecode.dump_eq_join`): for each blueprint one with its name, then one
for each instruction (`Bytecode.length_lines`). The first line of a blueprint starts with a letter
and the others with a blank, so the lines show where a blueprint ends. The dump of blueprints with
legible instructions therefore tells them from all others (`Bytecode.blueprints_eq_of_dump`).
-/

namespace RecordMachine

/-! ## One blueprint -/

namespace Blueprint

/-- The name is an identifier and the instructions are legible. -/
structure Legible (b : Blueprint) : Prop where
  name : Text.isIdentifier b.name = true
  code : ∀ i ∈ b.code.toList, i.Legible

/-- The lines of some instructions, the first of which has the given index. -/
def codeLines (start : Nat) (code : List Instruction) : List String :=
  (code.zipIdx start).map fun (i, index) => line index i

def lines (b : Blueprint) : List String := b.header :: codeLines 0 b.code.toList

/-- The text of a blueprint is made of its lines. -/
theorem text_eq_join (b : Blueprint) : b.text = String.join b.lines := by
  rw [lines, String.join_cons]
  rfl

/-- A blueprint has a line for each instruction, and one for itself. -/
theorem length_lines (b : Blueprint) : b.lines.length = b.code.size + 1 := by
  simp [lines, codeLines]

theorem codeLines_cons (start : Nat) (i : Instruction) (code : List Instruction) :
    codeLines start (i :: code) = line start i :: codeLines (start + 1) code := by
  simp [codeLines]

/-- The characters of a first line: the name stands between quotes and the number before a blank. -/
theorem toList_header (b : Blueprint) :
    b.header.toList = "Frame '".toList ++ (b.name.toList ++ '\'' :: ' ' :: '(' ::
      ((toString b.params).toList ++ ' ' :: ((if b.params = 1 then "param)" else "params)").toList
        ++ ['\n']))) := by
  unfold header
  split <;> simp

/-- The characters of a line: two blanks, the index, and the text of the instruction. -/
theorem toList_line (index : Nat) (i : Instruction) :
    (line index i).toList
      = ' ' :: ' ' :: ((toString index).toList ++ ':' :: ' ' :: (i.text.toList ++ ['\n'])) := by
  simp [line]

/-- An identifier and a number contain no line break, so the first line is one line. -/
theorem isLine_header {b : Blueprint} (hb : b.Legible) : Text.IsLine b.header := by
  have hname : '\n' ∉ b.name.toList := Text.not_mem_of_isIdentifier hb.name (by decide)
  have hparams : '\n' ∉ Nat.toDigits 10 b.params := by
    simpa using Text.not_mem_toString b.params (c := '\n') (by decide)
  refine ⟨"Frame '".toList ++ (b.name.toList ++ '\'' :: ' ' :: '(' ::
      ((toString b.params).toList ++ ' ' :: (if b.params = 1 then "param)" else "params)").toList)),
    ?_, ?_⟩
  · split <;> simp [hname, hparams]
  · rw [toList_header]
    simp

/-- A legible instruction contains no line break, so its line is one line. -/
theorem isLine_line (index : Nat) {i : Instruction} (hi : i.Legible) :
    Text.IsLine (line index i) := by
  have hindex : '\n' ∉ Nat.toDigits 10 index := by
    simpa using Text.not_mem_toString index (c := '\n') (by decide)
  refine ⟨' ' :: ' ' :: ((toString index).toList ++ ':' :: ' ' :: i.text.toList), ?_, ?_⟩
  · simp [hindex, hi.newline_not_mem]
  · rw [toList_line]
    simp

theorem isLine_of_mem_lines {b : Blueprint} (hb : b.Legible) {l : String} (hl : l ∈ b.lines) :
    Text.IsLine l := by
  rcases List.mem_cons.1 hl with rfl | hcode
  · exact isLine_header hb
  · obtain ⟨⟨i, index⟩, hmem, rfl⟩ := List.mem_map.1 hcode
    exact isLine_line index (hb.code i (List.fst_mem_of_mem_zipIdx hmem))

/-- The first line shows the name and the number of parameters. -/
theorem header_inj {b b' : Blueprint} (hb : b.Legible) (hb' : b'.Legible)
    (h : b.header = b'.header) : b.name = b'.name ∧ b.params = b'.params := by
  have hlists := congrArg String.toList h
  rw [toList_header, toList_header] at hlists
  have hquote : ∀ b : Blueprint, b.Legible → ∀ c ∈ b.name.toList, ¬c = '\'' := fun b hb c hc =>
    ne_of_mem_of_not_mem hc (Text.not_mem_of_isIdentifier hb.name (by decide))
  have hblank : ∀ n : Nat, ∀ c ∈ (toString n).toList, ¬c = ' ' := fun n c hc =>
    ne_of_mem_of_not_mem hc (Text.not_mem_toString n (by decide))
  -- The name ends at the first quote, and the number at the first blank behind it.
  obtain ⟨hname, hrest⟩ := Text.append_inj_of_mark (· = '\'') (hquote b hb) (hquote b' hb')
    (by simp) (by simp) (List.append_cancel_left hlists)
  simp only [List.cons.injEq, true_and] at hrest
  obtain ⟨hparams, _⟩ := Text.append_inj_of_mark (· = ' ') (hblank _) (hblank _) (by simp) (by simp)
    hrest
  exact ⟨String.toList_inj.1 hname, Text.nat_eq_of_toString hparams⟩

/-- The lines of some instructions show the instructions. Induction on the code. -/
theorem codeLines_inj {start : Nat} {code code' : List Instruction}
    (hcode : ∀ i ∈ code, i.Legible) (hcode' : ∀ i ∈ code', i.Legible)
    (h : codeLines start code = codeLines start code') : code = code' := by
  induction code generalizing start code' with
  | nil =>
    cases code' with
    | nil => rfl
    | cons i' code' => cases h
  | cons i code ih =>
    cases code' with
    | nil => cases h
    | cons i' code' =>
      rw [List.forall_mem_cons] at hcode hcode'
      rw [codeLines_cons, codeLines_cons, List.cons.injEq] at h
      -- Both stand at the same index, so what precedes the texts is the same.
      have htext : i.text = i'.text := by
        have hline := congrArg String.toList h.1
        rw [toList_line, toList_line] at hline
        simpa [String.toList_inj] using hline
      rw [Instruction.text_inj hcode.1 hcode'.1 htext, ih hcode.2 hcode'.2 h.2]

end Blueprint

/-! ## All blueprints -/

def IsHeader (l : String) : Prop := l.toList.head? = some 'F'

/-- A first line starts with a letter. -/
theorem Blueprint.isHeader_header (b : Blueprint) : IsHeader b.header := by
  rw [IsHeader, Blueprint.toList_header]
  rfl

/-- The line of an instruction starts with a blank. -/
theorem Blueprint.not_isHeader_of_mem {start : Nat} {code : List Instruction} {l : String}
    (hl : l ∈ codeLines start code) : ¬IsHeader l := by
  obtain ⟨⟨i, index⟩, _, rfl⟩ := List.mem_map.1 hl
  rw [IsHeader, toList_line]
  simp

/-- The lines of some blueprints show the blueprints. -/
theorem Blueprint.eq_of_flatMap_lines {bs bs' : List Blueprint} (hbs : ∀ b ∈ bs, b.Legible)
    (hbs' : ∀ b ∈ bs', b.Legible) (h : bs.flatMap lines = bs'.flatMap lines) : bs = bs' := by
  -- What follows the lines of a blueprint starts with the first line of the next one, if any.
  have hnext : ∀ bs : List Blueprint, ∀ l ∈ (bs.flatMap lines).head?, IsHeader l := by
    intro bs
    cases bs with
    | nil => simp
    | cons b bs => simp [lines, isHeader_header]
  induction bs generalizing bs' with
  | nil =>
    cases bs' with
    | nil => rfl
    | cons b' bs' => cases h
  | cons b bs ih =>
    cases bs' with
    | nil => cases h
    | cons b' bs' =>
      rw [List.forall_mem_cons] at hbs hbs'
      rw [List.flatMap_cons, List.flatMap_cons, lines, lines, List.cons_append, List.cons_append,
        List.cons.injEq] at h
      obtain ⟨hname, hparams⟩ := header_inj hbs.1 hbs'.1 h.1
      -- The lines of the code end where the next first line stands.
      obtain ⟨hlines, hrest⟩ := Text.append_inj_of_mark IsHeader (fun _ => not_isHeader_of_mem)
        (fun _ => not_isHeader_of_mem) (hnext bs) (hnext bs') h.2
      have hcode : b.code = b'.code :=
        Array.toList_inj.1 (codeLines_inj hbs.1.code hbs'.1.code hlines)
      have hfirst : b = b' := by
        cases b
        cases b'
        simp_all
      rw [hfirst, ih hbs.2 hbs'.2 hrest]

namespace Bytecode

def Legible (bc : Bytecode) : Prop := ∀ b ∈ bc.blueprints, b.Legible

/-- The lines of a dump: those of the blueprints in order. -/
def lines (bc : Bytecode) : List String := bc.blueprints.flatMap Blueprint.lines

/-- A dump is made of the lines of its blueprints. -/
theorem dump_eq_join (bc : Bytecode) : bc.dump = String.join bc.lines := by
  unfold dump lines
  induction bc.blueprints with
  | nil => rfl
  | cons b bs ih =>
    rw [List.map_cons, String.join_cons, ih, List.flatMap_cons, String.join_append,
      Blueprint.text_eq_join]

/-- There is one line for each blueprint and one for each instruction. -/
theorem length_lines (bc : Bytecode) :
    bc.lines.length
      = bc.blueprints.length + (bc.blueprints.flatMap fun b => b.code.toList).length := by
  unfold lines
  induction bc.blueprints with
  | nil => rfl
  | cons b bs ih =>
    simp only [List.flatMap_cons, List.length_append, List.length_cons, ih, Blueprint.length_lines,
      Array.length_toList]
    omega

theorem isLine_of_mem_lines {bc : Bytecode} (hbc : bc.Legible) {l : String} (hl : l ∈ bc.lines) :
    Text.IsLine l := by
  obtain ⟨b, hb, hmem⟩ := List.mem_flatMap.1 hl
  exact Blueprint.isLine_of_mem_lines (hbc b hb) hmem

/-- Programs with legible instructions and equal dumps have the same blueprints. -/
theorem blueprints_eq_of_dump {bc bc' : Bytecode} (hbc : bc.Legible) (hbc' : bc'.Legible)
    (h : bc.dump = bc'.dump) : bc.blueprints = bc'.blueprints := by
  rw [dump_eq_join, dump_eq_join] at h
  have hlines : bc.lines = bc'.lines :=
    Text.lines_inj (fun _ => isLine_of_mem_lines hbc) (fun _ => isLine_of_mem_lines hbc') h
  exact Blueprint.eq_of_flatMap_lines hbc hbc' hlines

end Bytecode

end RecordMachine
