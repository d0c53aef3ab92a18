import RecordMachine.Decimal.Integer
import RecordMachine.FileTree
import RecordMachine.Settings.Document

/-!
# Layers of settings

Settings come in layers: what is built in, the file of the user, the file of the project, and the
variables of the environment, each laid over the one before. The file of a project is found by
walking up from a directory to the first one that holds it.
-/

namespace RecordMachine

/-! ## Variables -/

/-- The variables of the environment that set something. -/
inductive Variable where
  | trace
  | maxCallDepth
  | heapBase
  | entry
deriving DecidableEq, Inhabited

namespace Variable

def name : Variable → String
  | .trace => "MYPL_TRACE"
  | .maxCallDepth => "MYPL_MAX_CALL_DEPTH"
  | .heapBase => "MYPL_HEAP_BASE"
  | .entry => "MYPL_ENTRY"

def all : List Variable := [.trace, .maxCallDepth, .heapBase, .entry]

def ofName? (name : String) : Option Variable :=
  all.find? fun v => v.name == name

end Variable

/-- The values of the variables, in octets. -/
abbrev Variables := Variable → Option (List UInt8)

namespace Variables

/-- The text of a variable. One that is not UTF-8 counts as unset. -/
def text? (vars : Variables) (v : Variable) : Option String :=
  (vars v).bind fun octets => String.fromUTF8? ⟨octets.toArray⟩

/-- Whether a text says yes. No character outside ASCII has one of these letters as its lower
case, so the case of ASCII letters alone is of no account. -/
def isYes (text : String) : Bool :=
  ["true", "1", "yes"].contains (String.ofList (text.toList.map Char.toLower))

/-- The number that a variable sets. Blanks around it are of no account. -/
def number? (vars : Variables) (v : Variable) : Except SettingsError (Option Nat) :=
  match vars.text? v with
  | none => .ok none
  | some text =>
    match Decimal.wordOfText (Text.trim text.toList) with
    | .ok n => .ok (some n)
    | .error e => .error (.invalidValue v.name e.message)

def overrides (vars : Variables) : Except SettingsError Overrides := do
  let maxCallDepth ← vars.number? .maxCallDepth
  let heapBase ← vars.number? .heapBase
  return ⟨vars.text? .entry, heapBase, maxCallDepth, (vars.text? .trace).map isYes⟩

end Variables

/-! ## Files -/

/-- What settings are gathered from besides the project. -/
structure Surroundings where
  files : FileTree := {}
  environment : Variables := fun _ => none
  /-- The directory of the user, if there is one. -/
  home : Option Path := none
  /-- The file of the user, if it is not at its usual place. -/
  userFile : Option Path := none

/-- Settings gathered from all layers, and the directory of the project. -/
structure Gathered where
  settings : Settings
  projectRoot : Option Path
deriving DecidableEq

def Gathered.isProject (g : Gathered) : Bool :=
  g.projectRoot.isSome

/-- Where the layer of the project comes from. -/
inductive ProjectSource where
  /-- A text, which belongs to no directory. -/
  | text (toml : String)
  /-- A file, whose directory is the root of the project. -/
  | file (path : Path)
  /-- The nearest project file from a directory upward. -/
  | directory (start : Path)
deriving DecidableEq

def projectFileName : String := "mypl.toml"

namespace FileTree

/-- Reads a settings file. A path whose names are not there is told from one that can lead to no
file. -/
def readSettings (t : FileTree) (p : Path) : Except SettingsError SettingsFile :=
  match t.find p with
  | .error .missing => .error (.notFound p.text)
  | .error _ => .error .unreadable
  | .ok (.directory _) => .error .unreadable
  | .ok (.file octets) =>
    match String.fromUTF8? ⟨octets.toArray⟩ with
    | none => .error .unreadable
    | some text => SettingsFile.read p.text text.toList

/-- The first directory, from the start upward, in which something has the name of a project file.
The first argument bounds the number of directories tried. -/
def nearestFrom (t : FileTree) : Nat → Path → Option Path
  | 0, _ => none
  | fuel + 1, dir =>
    if t.contains (dir.join projectFileName) then some dir
    else dir.parent?.bind (nearestFrom t fuel)

/-- The directory of the project that a directory belongs to. Each parent has fewer pieces, so their
number bounds the walk. -/
def nearestProject? (t : FileTree) (start : Path) : Option Path :=
  t.nearestFrom (start.pieces.length + 2) start

end FileTree

/-! ## Gathering -/

namespace Surroundings

/-- The file of the user, if there can be one. -/
def userPath? (s : Surroundings) : Option Path :=
  s.userFile.or (s.home.map fun home => (home.join ".mypl").join "config.toml")

def userLayer (s : Surroundings) : Except SettingsError SettingsFile :=
  match s.userPath? with
  | some path => if s.files.contains path then s.files.readSettings path else .ok none
  | none => .ok none

/-- The layer of the project, and the root of the project. -/
def projectLayer (s : Surroundings) :
    ProjectSource → Except SettingsError (SettingsFile × Option Path)
  | .text toml => do return (← SettingsFile.parse toml, none)
  | .file path => do return (← s.files.readSettings path, path.parent?)
  | .directory start =>
    match s.files.nearestProject? start with
    | some dir => do return (← s.files.readSettings (dir.join projectFileName), some dir)
    | none => .ok (none, none)

/-- Lays all layers over the built-in settings. -/
def gather (s : Surroundings) (source : ProjectSource) : Except SettingsError Gathered := do
  let (project, root) ← s.projectLayer source
  let user ← s.userLayer
  let environment ← s.environment.overrides
  let settings :=
    ({} : Settings).apply (user.getD {}) |>.apply (project.getD {}) |>.apply environment
  settings.validate
  return ⟨settings, root⟩

end Surroundings

end RecordMachine
