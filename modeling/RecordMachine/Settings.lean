import RecordMachine.Text.Blank

/-!
# Settings

The settings of a machine, and what a file may say about them. A file names only what it changes, so
every one of its keys is optional; a layer of settings is laid over another key by key.
-/

namespace RecordMachine

structure Settings where
  /-- The function that a run starts in. -/
  entryPoint : String := "main"
  /-- The id of the first object. -/
  heapBase : Nat := 1111
  /-- How many functions may be active at once; unlimited if absent. -/
  maxCallDepth : Option Nat := none
  /-- Whether each instruction is shown before it is executed. -/
  trace : Bool := false
deriving DecidableEq, Inhabited

/-- The settings that one layer sets. -/
structure Overrides where
  entryPoint : Option String := none
  heapBase : Option Nat := none
  maxCallDepth : Option Nat := none
  trace : Option Bool := none
deriving DecidableEq, Inhabited

/-- What is wrong with the settings, or with the place where they come from. -/
inductive SettingsError where
  /-- There is no such file. -/
  | notFound (path : String)
  /-- The file cannot be read. -/
  | unreadable
  /-- The text is not a settings file. -/
  | malformed (file : String)
  /-- The settings cannot be written. -/
  | unwritable
  /-- A setting has a value that it cannot have. -/
  | invalidValue (field reason : String)
deriving DecidableEq

/-- The wording of an error, as far as it is fixed: what a reader, a writer or a file system adds is
left out. -/
def SettingsError.message : SettingsError → String
  | .notFound path => "Configuration file not found: " ++ path
  | .unreadable => "Failed to read configuration"
  | .malformed file => "Invalid TOML in " ++ file
  | .unwritable => "Failed to render configuration"
  | .invalidValue field reason => "Invalid value for '" ++ field ++ "': " ++ reason

namespace SettingsError

/-- The name of the starting function is missing. -/
def blankEntryPoint : SettingsError :=
  .invalidValue "vm.entry_point" "entry point cannot be empty"

/-- Not even one function may be active. -/
def zeroCallDepth : SettingsError :=
  .invalidValue "vm.max_call_depth" "must be at least 1"

end SettingsError

namespace Settings

/-- The settings with a layer laid over them. -/
def apply (s : Settings) (o : Overrides) : Settings where
  entryPoint := o.entryPoint.getD s.entryPoint
  heapBase := o.heapBase.getD s.heapBase
  maxCallDepth := o.maxCallDepth.or s.maxCallDepth
  trace := o.trace.getD s.trace

/-- Refuses settings with which no run could start. -/
def validate (s : Settings) : Except SettingsError Unit :=
  if Text.isAllBlank s.entryPoint then .error .blankEntryPoint
  else if s.maxCallDepth = some 0 then .error .zeroCallDepth
  else .ok ()

end Settings

namespace Overrides

/-- Refuses a layer that would make any settings invalid. -/
def validate (o : Overrides) : Except SettingsError Unit :=
  if o.entryPoint.any Text.isAllBlank then .error .blankEntryPoint
  else if o.maxCallDepth = some 0 then .error .zeroCallDepth
  else .ok ()

end Overrides

end RecordMachine
