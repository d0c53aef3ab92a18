import RecordMachine.Settings.Document
import RecordMachine.Proofs.Refusal
import RecordMachine.Proofs.Toml.Documents

/-!
# Settings files are read as they were written

A file is written setting by setting, each on a line of its own below the header of the table, and
settings that are not set have no line (`Overrides.entries`). Reading makes the same entries of the
lines (`SettingsFile.readsAs_tableText`), and the entries give back what they were made of
(`Overrides.ofEntries?_entries`). A file can be written unless one of its numbers is greater than
the integers of a document (`SettingsFile.exists_tableText_iff`).
-/

namespace RecordMachine

/-! ## Entries -/

namespace Overrides

/-- The entries of the table in the order in which they are written, one for each setting that is
set. -/
def entries (o : Overrides) : List (Toml.Key × Toml) :=
  (o.entryPoint.map fun s => (["entry_point"], Toml.string s)).toList ++
    (o.heapBase.map fun n : Nat => (["heap_base_id"], Toml.integer n)).toList ++
    (o.maxCallDepth.map fun n : Nat => (["max_call_depth"], Toml.integer n)).toList ++
    (o.trace.map fun b => (["trace_execution"], Toml.boolean b)).toList

/-- The names of the settings are different, so no entry is read in the place of another. -/
theorem ofEntries?_entries (o : Overrides) : ofEntries? o.entries = some o := by
  obtain ⟨entryPoint, heapBase, maxCallDepth, trace⟩ := o
  cases entryPoint <;> cases heapBase <;> cases maxCallDepth <;> cases trace <;>
    simp [entries, ofEntries?, insert?]

end Overrides

namespace SettingsFile

def lineOf (entry : Toml.Key × Toml) : Toml.Line := .entry entry.1 entry.2

theorem mapM_entry?_lineOf (entries : List (Toml.Key × Toml)) :
    (entries.map lineOf).mapM entry? = some entries := by
  induction entries with
  | nil => rfl
  | cons entry entries ih =>
    rw [List.map_cons, List.mapM_cons, ih]
    rfl

/-- A table below its header says what its entries say. -/
theorem ofLines?_entries (o : Overrides) :
    ofLines? (.header ["vm"] :: o.entries.map lineOf) = some (some o) := by
  show ((o.entries.map lineOf).mapM entry?).bind _ = _
  rw [mapM_entry?_lineOf]
  show (Overrides.ofEntries? o.entries).bind _ = _
  rw [o.ofEntries?_entries]
  rfl

/-! ## Lines -/

/-- A bare name and the text of a value are written as a line that is read as their entry. -/
theorem readsAs_line {name : String} {value : List Char} {v : Toml}
    (hname : Toml.IsBareName name.toList) (hvalue : Toml.ReadsAsValue value v) :
    Toml.ReadsAs (line name value) [lineOf ([name], v)] := by
  have hread := Toml.readsAs_entry hname hvalue
  rw [String.ofList_toList] at hread
  exact hread

/-- A number that can be written is one that a document can have. -/
theorem readsAs_numberLine {name : String} {n : Nat} {text : List Char}
    (hname : Toml.IsBareName name.toList) (h : numberLine name n = .ok text) :
    Toml.ReadsAs text [lineOf ([name], .integer n)] := by
  unfold numberLine at h
  split at h
  · next hn =>
    cases h
    exact readsAs_line hname (Toml.readsAsValue_toDigits hn)
  · cases h

/-- A setting is written as the line of its entry, and not at all if it is not set. -/
theorem readsAs_optional {α : Type} {write : α → Except SettingsError (List Char)}
    {entry : α → Toml.Key × Toml} {setting : Option α} {text : List Char}
    (hline : ∀ a text, write a = .ok text → Toml.ReadsAs text [lineOf (entry a)])
    (h : optional write setting = .ok text) :
    Toml.ReadsAs text ((setting.map entry).toList.map lineOf) := by
  cases setting with
  | none =>
    cases h
    exact Toml.readsAs_nil
  | some a => exact hline a text h

def entryPointText : Option String → Except SettingsError (List Char) :=
  optional fun s => .ok (line "entry_point" (Toml.quote s.toList))

def traceText : Option Bool → Except SettingsError (List Char) :=
  optional fun b => .ok (line "trace_execution" (if b then "true".toList else "false".toList))

/-- The name of the starting function is written as a string, whatever characters it has. -/
theorem readsAs_entryPointText {setting : Option String} {text : List Char}
    (h : entryPointText setting = .ok text) :
    Toml.ReadsAs text
      ((setting.map fun s => (["entry_point"], Toml.string s)).toList.map lineOf) := by
  refine readsAs_optional (fun s text hs => ?_) h
  cases hs
  exact readsAs_line (Toml.isBareName_of_all (by decide) (by decide)) (Toml.readsAsValue_quote s)

theorem readsAs_traceText {setting : Option Bool} {text : List Char}
    (h : traceText setting = .ok text) :
    Toml.ReadsAs text
      ((setting.map fun b => (["trace_execution"], Toml.boolean b)).toList.map lineOf) := by
  refine readsAs_optional (fun b text hb => ?_) h
  cases hb
  exact readsAs_line (Toml.isBareName_of_all (by decide) (by decide)) (Toml.readsAsValue_boolean b)

/-- Both numbers are written in the same way, under their own names. -/
theorem readsAs_numberText {name : String} {setting : Option Nat} {text : List Char}
    (hname : Toml.IsBareName name.toList) (h : optional (numberLine name) setting = .ok text) :
    Toml.ReadsAs text ((setting.map fun n : Nat => ([name], Toml.integer n)).toList.map lineOf) :=
  readsAs_optional (fun _ _ => readsAs_numberLine hname) h

/-! ## The table -/

/-- The table can be written if all of its parts can, and they follow the header. -/
theorem tableText_eq_ok {o : Overrides} {text : List Char} :
    tableText o = .ok text ↔ ∃ entry base depth trace, entryPointText o.entryPoint = .ok entry ∧
      optional (numberLine "heap_base_id") o.heapBase = .ok base ∧
      optional (numberLine "max_call_depth") o.maxCallDepth = .ok depth ∧
      traceText o.trace = .ok trace ∧
      "[vm]\n".toList ++ entry ++ base ++ depth ++ trace = text := by
  show (entryPointText o.entryPoint >>= fun entry =>
    optional (numberLine "heap_base_id") o.heapBase >>= fun base =>
    optional (numberLine "max_call_depth") o.maxCallDepth >>= fun depth =>
    traceText o.trace >>= fun trace =>
    Except.ok ("[vm]\n".toList ++ entry ++ base ++ depth ++ trace)) = _ ↔ _
  simp only [bind_eq_ok, Except.ok.injEq, exists_and_left]

/-- The text of a table is read as the header and the entries. -/
theorem readsAs_tableText {o : Overrides} {text : List Char} (h : tableText o = .ok text) :
    Toml.ReadsAs text (.header ["vm"] :: o.entries.map lineOf) := by
  obtain ⟨entry, base, depth, trace, hentry, hbase, hdepth, htrace, rfl⟩ := tableText_eq_ok.1 h
  have hvm : Toml.IsBareName ['v', 'm'] := Toml.isBareName_of_all (by decide) (by decide)
  have hheader : Toml.ReadsAs "[vm]\n".toList [.header ["vm"]] := Toml.readsAs_header hvm
  have hbase := readsAs_numberText (Toml.isBareName_of_all (by decide) (by decide)) hbase
  have hdepth := readsAs_numberText (Toml.isBareName_of_all (by decide) (by decide)) hdepth
  have hall := (hheader.append (readsAs_entryPointText hentry)).append
    ((hbase.append hdepth).append (readsAs_traceText htrace))
  simpa [Overrides.entries] using hall

/-- A number can be written unless it is greater than the integers of a document. -/
theorem exists_numberText_iff (name : String) {setting : Option Nat} :
    (∃ text, optional (numberLine name) setting = .ok text) ↔
      ∀ n ∈ setting, n ≤ Toml.integerMax := by
  cases setting with
  | none => exact ⟨fun _ => nofun, fun _ => ⟨[], rfl⟩⟩
  | some n =>
    unfold optional numberLine
    by_cases hn : n ≤ Toml.integerMax <;> simp [hn]

/-- Only its numbers can keep a table from being written. -/
theorem exists_tableText_iff {o : Overrides} :
    (∃ text, tableText o = .ok text) ↔
      (∀ n ∈ o.heapBase, n ≤ Toml.integerMax) ∧ ∀ n ∈ o.maxCallDepth, n ≤ Toml.integerMax := by
  rw [← exists_numberText_iff "heap_base_id", ← exists_numberText_iff "max_call_depth"]
  constructor
  · rintro ⟨text, h⟩
    obtain ⟨entry, base, depth, trace, -, hbase, hdepth, -, -⟩ := tableText_eq_ok.1 h
    exact ⟨⟨base, hbase⟩, ⟨depth, hdepth⟩⟩
  · rintro ⟨⟨base, hbase⟩, ⟨depth, hdepth⟩⟩
    obtain ⟨entry, hentry⟩ : ∃ text, entryPointText o.entryPoint = .ok text := by
      cases o.entryPoint <;> exact ⟨_, rfl⟩
    obtain ⟨trace, htrace⟩ : ∃ text, traceText o.trace = .ok text := by
      cases o.trace <;> exact ⟨_, rfl⟩
    exact ⟨_, tableText_eq_ok.2 ⟨entry, base, depth, trace, hentry, hbase, hdepth, htrace, rfl⟩⟩

/-- What is written for a table is read as the same table. -/
theorem parse?_tableText {o : Overrides} {text : List Char} (h : tableText o = .ok text) :
    (Toml.parse? text).bind ofLines? = some (some o) := by
  -- The table begins with its header, so no mark at the front is dropped.
  have hhead : text.head? ≠ some '\ufeff' := by
    obtain ⟨entry, base, depth, trace, -, -, -, -, rfl⟩ := tableText_eq_ok.1 h
    show some '[' ≠ some '\ufeff'
    decide
  rw [Toml.parse?_of_readsAs (readsAs_tableText h) hhead]
  exact ofLines?_entries o

/-! ## Files -/

theorem render_some_eq_ok {o : Overrides} {text : String} :
    render (some o) = .ok text ↔ ∃ chars, tableText o = .ok chars ∧ String.ofList chars = text := by
  show (tableText o >>= fun chars => Except.ok (String.ofList chars)) = _ ↔ _
  simp only [bind_eq_ok, Except.ok.injEq]

/-- A settings file survives being written and read back. Take any file whose settings are valid,
whether it has no table, an empty one or one with settings, and whatever characters the name of the
starting function has. If the file can be written, reading the text gives the file again. It can be
written exactly if its numbers are no greater than the integers of a document. -/
theorem parse_render (file : SettingsFile) (hvalid : file.validate = .ok ()) :
    (∀ text, file.render = .ok text → parse text = .ok file) ∧
    ((∃ text, file.render = .ok text) ↔ ∀ o ∈ file,
      (∀ n ∈ o.heapBase, n ≤ Toml.integerMax) ∧ ∀ n ∈ o.maxCallDepth, n ≤ Toml.integerMax) := by
  cases file with
  | none =>
    refine ⟨fun text htext => ?_, fun _ => nofun, fun _ => ⟨"", rfl⟩⟩
    cases htext
    rfl
  | some o =>
    constructor
    · intro text htext
      obtain ⟨chars, hchars, rfl⟩ := render_some_eq_ok.1 htext
      -- What was read is validated, which is where the hypothesis is needed.
      unfold parse read
      rw [String.toList_ofList, parse?_tableText hchars]
      dsimp only
      rw [hvalid]
      rfl
    · have hwritten : (∃ text, render (some o) = .ok text) ↔ ∃ chars, tableText o = .ok chars := by
        simp only [render_some_eq_ok]
        exact ⟨fun ⟨_, chars, h, _⟩ => ⟨chars, h⟩, fun ⟨chars, h⟩ => ⟨_, chars, h, rfl⟩⟩
      rw [hwritten, exists_tableText_iff]
      exact ⟨fun h _ ho => Option.mem_some_iff.1 ho ▸ h, fun h => h o rfl⟩

/-- A name with more than two of both marks in a row, a backslash, a line break and characters that
only an escape can write, and the greatest number that a document can have. -/
def awkward : SettingsFile := some
  { entryPoint := some "\"\"\"\"\'\'\'\\u\n\r\x00\x7fé\"\"", heapBase := some Toml.integerMax }

/-- Of the quotes of the name the third is escaped, and the last two stand right before the closing
ones. -/
def awkwardText : String :=
  "[vm]\nentry_point = \"\"\"\n\"\"\\\"\"\'\'\'\\\\u\n\\r\\u0000\\u007Fé" ++
    "\"\"\"\"\"\nheap_base_id = 9223372036854775807\n"

/-- The name is written in the form of several lines, and read back from it with all of its
characters. -/
theorem parse_render_awkward :
    awkward.validate = .ok () ∧ awkward.render = .ok awkwardText ∧
      parse awkwardText = .ok awkward := by
  have hvalid : awkward.validate = .ok () := by decide +kernel
  have hrender : awkward.render = .ok awkwardText := by decide +kernel
  exact ⟨hvalid, hrender, (parse_render awkward hvalid).1 _ hrender⟩

end SettingsFile

end RecordMachine
