import RecordMachine.Lowering.Program
import RecordMachine.Machine.Words
import RecordMachine.Validation

/-!
# The toolchain

From a program to its result: lowering, validation, a look at the settings, and the run. One error
type covers all stages, those of a front end included, so that a caller can tell a fault of a run
from everything before it.
-/

namespace RecordMachine

/-- A failure of any stage. -/
inductive StageError where
  /-- The text of a program could not be split into tokens. -/
  | lexical (message : String)
  /-- The tokens of a program do not form one. -/
  | grammatical (message : String)
  /-- A program violates a rule that is checked before lowering. -/
  | static (message : String)
  | lowering (error : LoweringError)
  | invalidBytecode (defects : List Defect)
  | runtime (report : Report)
  | settings (error : SettingsError)

namespace StageError

/-- The short name of the stage. Bytecode that is not valid counts as a failure of its producer. -/
def stage : StageError → String
  | .lexical _ => "lex"
  | .grammatical _ => "parse"
  | .static _ => "static"
  | .lowering _ | .invalidBytecode _ => "codegen"
  | .runtime _ => "runtime"
  | .settings _ => "config"

def message : StageError → String
  | .lexical text => "Lexer error: " ++ text
  | .grammatical text => "Parser error: " ++ text
  | .static text => "Static error: " ++ text
  | .lowering error => "Code generation error: " ++ error.message
  | .invalidBytecode defects =>
    "Invalid bytecode: " ++ "; ".intercalate (defects.map Defect.text)
  | .runtime report => "Runtime error: " ++ report.text
  | .settings error => "Configuration error: " ++ error.message

/-- The fault of a run, if the failure is one. -/
def runtime? : StageError → Option Report
  | .runtime report => some report
  | _ => none

end StageError

/-- Refuses bytecode with defects. -/
def Bytecode.check (bc : Bytecode) : Except StageError Unit :=
  if bc.isValid then .ok () else .error (.invalidBytecode bc.defects)

namespace Program

/-- Lowers and validates a program, and tells what was done. -/
def compile (p : Program) (table : TypeTable) : Except StageError Bytecode × List Event :=
  let (bc, error) := p.lowering table
  let events := bc.blueprints.map fun b => Event.generated b.name b.params b.code.size
  match error with
  | some e => (.error (.lowering e), events)
  | none =>
    match bc.check with
    | .error e => (.error e, events)
    | .ok () => (.ok bc, events ++ [.compiled bc.size])

end Program

/-- How a program is run. -/
structure Setup where
  settings : Settings := {}
  console : Console := {}
  /-- Whether statistics are wanted. -/
  profiling : Bool := false

/-- What a run that ended well leaves behind. -/
structure Execution where
  /-- The value that the starting function returned. -/
  value : Value
  liveObjects : Nat
  profile : Option Profile

/-- The end of a run: its result, and what was printed and reported on the way. -/
structure Completion where
  result : Except StageError Execution
  output : String
  events : List Event

namespace Setup

/-- A run that was refused before its first step. -/
def refuse (setup : Setup) (error : StageError) (events : List Event) : Completion :=
  ⟨.error error, setup.console.output, events⟩

/-- Runs bytecode after a look at the settings, for at most `fuel` steps. -/
def launch (setup : Setup) (fuel : Nat) (bc : Bytecode) (events : List Event) :
    Attempt Completion :=
  match setup.settings.validate with
  | .error e => .ended (setup.refuse (.settings e) events)
  | .ok () =>
    let m : Machine := ⟨bc, setup.settings⟩
    let profile := if setup.profiling then some Profile.fresh else none
    (m.wordRun fuel (m.initial setup.console profile)).map fun (result, s) =>
      { result := match result with
          | .ok value => .ok ⟨value, s.heap.liveCount, s.profile⟩
          | .error fault => .error (.runtime fault.report)
        output := s.console.output
        events := events ++ s.log.reverse }

/-- Compiles and runs a program. -/
def run (setup : Setup) (fuel : Nat) (p : Program) (table : TypeTable) : Attempt Completion :=
  match p.compile table with
  | (.error e, events) => .ended (setup.refuse e events)
  | (.ok bc, events) => setup.launch fuel bc events

def runBytecode (setup : Setup) (fuel : Nat) (bc : Bytecode) : Attempt Completion :=
  match bc.check with
  | .error e => .ended (setup.refuse e [])
  | .ok () => setup.launch fuel bc []

end Setup

end RecordMachine
