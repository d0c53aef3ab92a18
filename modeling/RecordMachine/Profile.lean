import RecordMachine.Opcode
import RecordMachine.Decimal.Rounding

/-!
# Profiles

Counts of executed instructions, by opcode and by place, and the greatest depths that were seen. A
profile that is not enabled ignores what it is told.
-/

namespace RecordMachine

/-- How often each of some keys occurred. A key that is absent did not occur. -/
structure Tally (α : Type) where
  entries : List (α × Nat) := []

namespace Tally

variable {α : Type} [DecidableEq α]

/-- Adds one occurrence to the entries. -/
def bump (key : α) : List (α × Nat) → List (α × Nat)
  | [] => [(key, 1)]
  | (other, n) :: rest =>
    if other = key then (other, n + 1) :: rest else (other, n) :: bump key rest

def add (t : Tally α) (key : α) : Tally α := ⟨bump key t.entries⟩

def count (t : Tally α) (key : α) : Nat :=
  ((t.entries.find? fun e => e.1 == key).map Prod.snd).getD 0

def total (t : Tally α) : Nat := t.entries.foldr (fun e rest => e.2 + rest) 0

end Tally

/-- Statistics of the executed instructions. -/
structure Profile where
  enabled : Bool := false
  total : Nat := 0
  opcodes : Tally Opcode := {}
  places : Tally (String × Nat) := {}
  maxStackDepth : Nat := 0
  maxCallDepth : Nat := 0

namespace Profile

def fresh : Profile := { enabled := true }

def reset (p : Profile) : Profile := { enabled := p.enabled }

def record (p : Profile) (op : Opcode) (function : String) (pc : Nat) : Profile :=
  if p.enabled then
    { p with
      total := p.total + 1
      opcodes := p.opcodes.add op
      places := p.places.add (function, pc) }
  else p

def noteStackDepth (p : Profile) (depth : Nat) : Profile :=
  if p.enabled then { p with maxStackDepth := max p.maxStackDepth depth } else p

def noteCallDepth (p : Profile) (depth : Nat) : Profile :=
  if p.enabled then { p with maxCallDepth := max p.maxCallDepth depth } else p

def observe (p : Profile) (op : Opcode) (function : String) (pc stackDepth callDepth : Nat) :
    Profile :=
  ((p.record op function pc).noteStackDepth stackDepth).noteCallDepth callDepth

def countOf (p : Profile) (op : Opcode) : Nat := p.opcodes.count op

def countAt (p : Profile) (function : String) (pc : Nat) : Nat := p.places.count (function, pc)

/-! ## The report -/

def padRight (width : Nat) (s : String) : String :=
  s ++ String.ofList (List.replicate (width - s.length) ' ')

def padLeft (width : Nat) (s : String) : String :=
  String.ofList (List.replicate (width - s.length) ' ') ++ s

/-- The share of a count in percent, computed in doubles. -/
def percentage (count total : Nat) : Float :=
  Float.ofNat count / Float.ofNat total * 100.0

def row (total : Nat) (op : Opcode) (count : Nat) : String :=
  "  " ++ padRight 10 op.mnemonic ++ " " ++ padLeft 10 (toString count) ++ " ("
    ++ padLeft 6 (Decimal.twoPlaces (percentage count total)) ++ "%)\n"

/-- The most frequent opcodes come first, equally frequent ones in the order of their mnemonics. -/
def rowBefore (a b : Opcode × Nat) : Bool :=
  decide (b.2 < a.2) || (a.2 == b.2 && decide (a.1.mnemonic ≤ b.1.mnemonic))

def report (p : Profile) : String :=
  if p.enabled then
    "Total instructions executed: " ++ toString p.total ++ "\nMax operand stack depth: "
      ++ toString p.maxStackDepth ++ "\nMax call depth: " ++ toString p.maxCallDepth ++ "\n\n"
      ++ (if p.opcodes.entries.isEmpty then "No instructions recorded\n"
        else "Instruction counts by opcode:\n" ++ String.join
          ((p.opcodes.entries.mergeSort rowBefore).map fun (op, count) => row p.total op count))
  else "Profiling not enabled"

end Profile

end RecordMachine
