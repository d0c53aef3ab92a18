import RecordMachine.Settings
import RecordMachine.Toml.Reader
import RecordMachine.Toml.Writer

/-!
# Settings files

A settings file is a TOML document that holds nothing but the table `vm`, and in it nothing but the
four settings. A file without the table differs from one whose table is empty.
-/

namespace RecordMachine

/-- What a settings file says: nothing, or what its table overrides. -/
abbrev SettingsFile := Option Overrides

namespace Overrides

/-! ## Reading -/

/-- Adds what one entry says. A setting is given once, by its name and with a value of its type. -/
def insert? (o : Overrides) : Toml.Key × Toml → Option Overrides
  | (["entry_point"], .string s) =>
    if o.entryPoint.isNone then some { o with entryPoint := some s } else none
  | (["heap_base_id"], .integer n) =>
    if o.heapBase.isNone ∧ 0 ≤ n then some { o with heapBase := some n.toNat } else none
  | (["max_call_depth"], .integer n) =>
    if o.maxCallDepth.isNone ∧ 0 ≤ n then some { o with maxCallDepth := some n.toNat } else none
  | (["trace_execution"], .boolean b) =>
    if o.trace.isNone then some { o with trace := some b } else none
  | _ => none

/-- What the entries of the table say together. -/
def ofEntries? (entries : List (Toml.Key × Toml)) : Option Overrides :=
  entries.foldlM insert? {}

/-- What the table says if it is written as one value. An array gives all four settings in order,
and what follows them is of no account. -/
def ofValue? : Toml → Option Overrides
  | .table entries => ofEntries? entries
  | .array (.string entry :: .integer base :: .integer depth :: .boolean trace :: _) =>
    if 0 ≤ base ∧ 0 ≤ depth then
      some ⟨some entry, some base.toNat, some depth.toNat, some trace⟩
    else none
  | _ => none

end Overrides

namespace SettingsFile

/-- The entry on a line under a header. -/
def entry? : Toml.Line → Option (Toml.Key × Toml)
  | .entry key value => some (key, value)
  | _ => none

/-- The entry that a line makes in the table by naming the table in its key. -/
def dottedEntry? : Toml.Line → Option (Toml.Key × Toml)
  | .entry ("vm" :: key) value => some (key, value)
  | _ => none

/-- What the lines of a document say. The table is written in one of three ways: below its header,
as one value, or entry by entry in front of any header. -/
def ofLines? : List Toml.Line → Option SettingsFile
  | [] => some none
  | .header ["vm"] :: lines => do
    let entries ← lines.mapM entry?
    return some (← Overrides.ofEntries? entries)
  | [.entry ["vm"] value] => do
    return some (← Overrides.ofValue? value)
  | lines => do
    let entries ← lines.mapM dottedEntry?
    return some (← Overrides.ofEntries? entries)

/-- Refuses a file whose settings could never be valid. -/
def validate (file : SettingsFile) : Except SettingsError Unit :=
  match file with
  | some o => o.validate
  | none => .ok ()

/-- Reads the text of a file; `name` is what the file is called if its text is malformed. -/
def read (name : String) (text : List Char) : Except SettingsError SettingsFile := do
  match (Toml.parse? text).bind ofLines? with
  | none => throw (.malformed name)
  | some file =>
    file.validate
    return file

/-- Reads a text that comes from no file. -/
def parse (text : String) : Except SettingsError SettingsFile :=
  read "<string>" text.toList

/-! ## Writing -/

def line (name : String) (value : List Char) : List Char :=
  name.toList ++ " = ".toList ++ value ++ ['\n']

/-- The line of a number, which must not be greater than the integers of a document. -/
def numberLine (name : String) (n : Nat) : Except SettingsError (List Char) :=
  if n ≤ Toml.integerMax then .ok (line name (Nat.toDigits 10 n)) else .error .unwritable

/-- The text of a part that may be missing. -/
def optional {α : Type} (write : α → Except SettingsError (List Char)) :
    Option α → Except SettingsError (List Char)
  | some a => write a
  | none => .ok []

def tableText (o : Overrides) : Except SettingsError (List Char) := do
  let entry ← optional (fun s => .ok (line "entry_point" (Toml.quote s.toList))) o.entryPoint
  let base ← optional (numberLine "heap_base_id") o.heapBase
  let depth ← optional (numberLine "max_call_depth") o.maxCallDepth
  let trace ← optional
    (fun b => .ok (line "trace_execution" (if b then "true".toList else "false".toList))) o.trace
  return "[vm]\n".toList ++ entry ++ base ++ depth ++ trace

def render (file : SettingsFile) : Except SettingsError String :=
  match file with
  | none => .ok ""
  | some o => do return String.ofList (← tableText o)

end SettingsFile

end RecordMachine
