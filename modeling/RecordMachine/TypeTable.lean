import RecordMachine.Dictionary
import RecordMachine.Tree.Basic

/-!
# Type tables

What the compiler needs to know about the names of a program: the fields of each record type, in
order, and the parameters of each function. Types of fields are recorded as far as they are evident,
and never used.
-/

namespace RecordMachine

/-- A field of a record type. -/
structure FieldInfo where
  name : String
  type : Option String
deriving DecidableEq

structure Signature where
  params : List String
  returnType : String
deriving DecidableEq

/-- The record types and functions that a program may use. -/
structure TypeTable where
  records : Dictionary (List FieldInfo) := {}
  functions : Dictionary Signature := {}

namespace TypeTable

/-- The type of an initial value where it is evident. -/
def evidentType : Expr → Option String
  | .literal (.int _) => some "int"
  | .literal (.double _) => some "double"
  | .literal (.bool _) => some "bool"
  | .literal (.char _) => some "char"
  | .literal (.string _) => some "string"
  | .new type => some type
  | _ => none

def fieldInfo (d : VarDecl) : FieldInfo :=
  ⟨d.name, d.type.or (evidentType d.init)⟩

/-- The table of a program: of two declarations of one name the later one counts. -/
def ofProgram (p : Program) : TypeTable where
  records := .ofList (p.types.map fun d => (d.name, d.fields.map fieldInfo))
  functions := .ofList (p.functions.map fun f =>
    (f.name, ⟨f.params.map Param.type, f.returnType⟩))

def fields? (t : TypeTable) (type : String) : Option (List String) :=
  (t.records.get? type).map fun fields => fields.map FieldInfo.name

def arity? (t : TypeTable) (name : String) : Option Nat :=
  (t.functions.get? name).map fun s => s.params.length

end TypeTable

end RecordMachine
