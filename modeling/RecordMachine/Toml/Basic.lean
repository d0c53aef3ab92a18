import RecordMachine.Toml.Moment

/-!
# TOML documents

The values of TOML, and a document line by line, as headers and entries under dotted keys. The lines
are kept apart because whether two of them may speak of one table depends on how each of them does
it. An inline table is complete where it stands, so its keys are checked against each other alone.
-/

namespace RecordMachine

/-- A dotted key, part by part. -/
abbrev Toml.Key := List String

inductive Toml where
  | string (s : String)
  | integer (n : Int)
  | float (x : Float)
  | boolean (b : Bool)
  | moment (m : Toml.Moment)
  | array (items : List Toml)
  | table (entries : List (List String × Toml))
deriving Inhabited

namespace Toml

/-- Two keys that may stand in one inline table: neither leads to the place of the other or through
it. -/
def Key.Apart (a b : Key) : Prop :=
  ¬a <+: b ∧ ¬b <+: a

instance : DecidableRel Key.Apart := fun a b =>
  inferInstanceAs (Decidable (¬a <+: b ∧ ¬b <+: a))

/-- A line of a document that says something. -/
inductive Line where
  /-- What follows belongs to the table of this name. -/
  | header (key : Key)
  /-- What follows belongs to a new table in the list of this name. -/
  | listHeader (key : Key)
  /-- A value under a key. -/
  | entry (key : Key) (value : Toml)
deriving Inhabited

def integerMax : Nat := Nat.pow 2 63 - 1

/-- The greatest number of arrays and inline tables that stand in one another. -/
def nestingLimit : Nat := 79

/-- The greatest number of parts of a key. -/
def keyLimit : Nat := 79

end Toml

end RecordMachine
