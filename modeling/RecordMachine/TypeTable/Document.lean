import RecordMachine.Json.Access
import RecordMachine.Tree.Encoding
import RecordMachine.TypeTable

/-!
# Type tables as documents

The JSON document of a type table, which a front end may hand over together with a program.
-/

namespace RecordMachine

def FieldInfo.toJson (f : FieldInfo) : Json :=
  .object [("name", .string f.name), ("ty", .ofOption .string f.type)]

def FieldInfo.ofJson? (j : Json) : Option FieldInfo := do
  let [name, type] ← j.record? [("name", .required), ("ty", .optional)] | none
  let name ← name.string?
  let type ← type.optional? Json.string?
  return ⟨name, type⟩

def FieldInfo.recordToJson (fields : List FieldInfo) : Json :=
  .object [("fields", .array (fields.map FieldInfo.toJson))]

def FieldInfo.recordOfJson? (j : Json) : Option (List FieldInfo) := do
  let [fields] ← j.record? [("fields", .required)] | none
  fields.listOf? FieldInfo.ofJson?

def Signature.toJson (s : Signature) : Json :=
  .object [("params", .ofNames s.params), ("return_type", .string s.returnType)]

def Signature.ofJson? (j : Json) : Option Signature := do
  let [params, returnType] ← j.record? [("params", .required), ("return_type", .required)] | none
  let params ← params.listOf? Json.string?
  let returnType ← returnType.string?
  return ⟨params, returnType⟩

namespace Dictionary

variable {β : Type}

/-- The document of a dictionary: an object with its names as keys. -/
def toJson (write : β → Json) (d : Dictionary β) : Json :=
  .object (d.entries.map fun (name, value) => (name, write value))

def ofJson? (read : Json → Option β) : Json → Option (Dictionary β)
  | .object members => do
    let entries ← members.mapM fun (name, value) => (read value).map (name, ·)
    return .ofList entries
  | _ => none

end Dictionary

namespace TypeTable

def toJson (t : TypeTable) : Json :=
  .object [("records", t.records.toJson FieldInfo.recordToJson),
    ("functions", t.functions.toJson Signature.toJson)]

def ofJson? (j : Json) : Option TypeTable := do
  let [records, functions] ← j.record? [("records", .required), ("functions", .required)] | none
  let records ← Dictionary.ofJson? FieldInfo.recordOfJson? records
  let functions ← Dictionary.ofJson? Signature.ofJson? functions
  return ⟨records, functions⟩

end TypeTable

end RecordMachine
