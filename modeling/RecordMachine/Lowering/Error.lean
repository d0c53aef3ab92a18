/-!
# Errors of lowering

A program that lowering refuses has a name that does not resolve, a call with the wrong number of
arguments, a function declared twice or an empty path.
-/

namespace RecordMachine

inductive LoweringError where
  | unknownType (name function : String)
  | unknownFunction (name function : String)
  | unknownVariable (name function : String)
  | arityMismatch (name : String) (expected found : Nat)
  | duplicateFunction (name : String)
  | emptyPath (function : String)
  /-- The initial values of a record type construct that same type without end. -/
  | endlessRecord (name function : String)
deriving DecidableEq

def LoweringError.message : LoweringError → String
  | .unknownType name function => "Unknown type '" ++ name ++ "' in function '" ++ function ++ "'"
  | .unknownFunction name function =>
    "Unknown function '" ++ name ++ "' called from '" ++ function ++ "'"
  | .unknownVariable name function =>
    "Unknown variable '" ++ name ++ "' in function '" ++ function ++ "'"
  | .arityMismatch name expected found =>
    "'" ++ name ++ "' expects " ++ toString expected ++ " argument(s), got " ++ toString found
  | .duplicateFunction name => "Function '" ++ name ++ "' is declared more than once"
  | .emptyPath function => "Empty variable path in function '" ++ function ++ "'"
  | .endlessRecord name function =>
    "Record type '" ++ name ++ "' constructs itself without end in function '" ++ function ++ "'"

end RecordMachine
