import RecordMachine.Json.Basic
import RecordMachine.Decimal.Integer

/-!
# Taking documents apart

How documents stand for the values of a program: numbers, texts, records and alternatives. A record
is an object whose keys are the names of its fields, or an array of all its fields in order; keys
that are not among them are ignored. An alternative is an object with its name as the only key, or
the bare name if it carries nothing.
-/

namespace RecordMachine.Json

def string? : Json → Option String
  | .string s => some s
  | _ => none

def bool? : Json → Option Bool
  | .bool b => some b
  | _ => none

/-- A whole number in the signed 64-bit range. -/
def int64? : Json → Option Int64
  | .int n =>
    if Decimal.int64Min ≤ n ∧ n ≤ Decimal.int64Max then some (Int64.ofInt n) else none
  | _ => none

/-- A whole number that is not negative and below the limit. -/
def nat? (limit : Nat) : Json → Option Nat
  | .int n => if 0 ≤ n ∧ n < limit then some n.toNat else none
  | _ => none

/-- A number, as the nearest double. -/
def double? : Json → Option Float
  | .int n => some (Float.ofInt n)
  | .double x => some x
  | _ => none

/-- The only character of a string. -/
def char? : Json → Option Char
  | .string s =>
    match s.toList with
    | [c] => some c
    | _ => none
  | _ => none

def listOf? {α : Type} (read : Json → Option α) : Json → Option (List α)
  | .array items => items.mapM read
  | _ => none

def optional? {α : Type} (read : Json → Option α) : Json → Option (Option α)
  | .null => some none
  | j => (read j).map some

/-- Whether an object may lack a field; a missing field is then `null`. -/
inductive Presence where
  | required
  | optional
deriving DecidableEq

/-- The value of a field of an object. It may not be given twice. -/
def field? (members : List (String × Json)) (field : String × Presence) : Option Json :=
  match members.filter fun m => m.1 == field.1 with
  | [] => if field.2 = .optional then some .null else none
  | [m] => some m.2
  | _ => none

/-- The fields of a record, in the given order. -/
def record? (fields : List (String × Presence)) : Json → Option (List Json)
  | .object members => fields.mapM (field? members)
  | .array items => if items.length = fields.length then some items else none
  | _ => none

/-- The name of an alternative and what it carries. -/
def variant? : Json → Option (String × Option Json)
  | .string name => some (name, none)
  | .object [(name, content)] => some (name, some content)
  | _ => none

/-- The name of an alternative that carries nothing. A `null` is nothing, too; where reading is
`loose`, so is an object without members. -/
def unit? (loose : Bool) (j : Json) : Option String :=
  match j.variant? with
  | some (name, none) => some name
  | some (name, some .null) => some name
  | some (name, some (.object [])) => if loose then some name else none
  | _ => none

mutual

/-- The number of arrays and objects around the innermost value. -/
def depth : Json → Nat
  | .array items => depthAll items + 1
  | .object members => depthMembers members + 1
  | _ => 0

def depthAll : List Json → Nat
  | [] => 0
  | item :: rest => max (depth item) (depthAll rest)

def depthMembers : List (String × Json) → Nat
  | [] => 0
  | (_, value) :: rest => max (depth value) (depthMembers rest)

end

end RecordMachine.Json
