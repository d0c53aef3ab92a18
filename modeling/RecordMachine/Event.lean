import RecordMachine.Fault
import RecordMachine.Instruction

/-!
# Events

What the compiler and the machine report about their work. An event is shown as its level, its
message and its data in a fixed order.
-/

namespace RecordMachine

/-- Something that happened during a compilation or a run. -/
inductive Event where
  /-- A function was compiled. -/
  | generated (function : String) (params instructions : Nat)
  /-- A program was compiled and found without defects. -/
  | compiled (blueprints : Nat)
  /-- A run starts. -/
  | runStart (entry : String) (blueprints : Nat)
  /-- A run has returned a value. -/
  | runEnd (result : Value) (liveObjects : Nat)
  /-- A run has stopped at a fault. -/
  | runAborted (fault : Fault)
  /-- A function was entered. -/
  | call (function : String) (depth : Nat)
  /-- A function has returned. -/
  | ret (function : String) (depth : Nat)
  /-- An instruction is about to be executed. -/
  | execute (function : String) (pc : Nat) (instruction : Instruction) (operands : List Value)

def Event.text : Event → String
  | .generated function params instructions =>
    "DEBUG generated blueprint function=" ++ function ++ " params=" ++ toString params
      ++ " instructions=" ++ toString instructions
  | .compiled blueprints => "DEBUG program compiled blueprints=" ++ toString blueprints
  | .runStart entry blueprints =>
    "DEBUG vm run start entry=" ++ entry ++ " blueprints=" ++ toString blueprints
  | .runEnd result liveObjects =>
    "DEBUG vm run end result=" ++ result.text ++ " live_objects=" ++ toString liveObjects
  | .runAborted fault => "DEBUG vm run aborted error=" ++ fault.text
  | .call function depth => "TRACE call function=" ++ function ++ " depth=" ++ toString depth
  | .ret function depth => "TRACE return function=" ++ function ++ " depth=" ++ toString depth
  | .execute function pc instruction operands =>
    "TRACE execute function=" ++ function ++ " pc=" ++ toString pc ++ " instruction="
      ++ instruction.text ++ " stack=" ++ Value.listText operands

end RecordMachine
