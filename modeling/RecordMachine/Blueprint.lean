import RecordMachine.Instruction

/-!
# Blueprints

The code of one function: its name, the number of its parameters and its instructions. Jump targets
are indices into the same instructions.
-/

namespace RecordMachine

/-- The code of one function. -/
structure Blueprint where
  name : String
  params : Nat
  code : Array Instruction := #[]
deriving DecidableEq

namespace Blueprint

def offset (b : Blueprint) : Nat := b.code.size

/-- Appends an instruction. Its index is the `offset` before. -/
def emit (b : Blueprint) (i : Instruction) : Blueprint :=
  { b with code := b.code.push i }

/-- Points the instruction at `index` to `target`, if there is one. Only its operand changes. -/
def patch? (b : Blueprint) (index target : Nat) : Option Blueprint :=
  b.code[index]?.map fun i =>
    { b with code := b.code.setIfInBounds index { i with operand := some (.address target) } }

def header (b : Blueprint) : String :=
  "Frame '" ++ b.name ++ "' (" ++ toString b.params ++
    (if b.params = 1 then " param)\n" else " params)\n")

def line (index : Nat) (i : Instruction) : String :=
  "  " ++ toString index ++ ": " ++ i.text ++ "\n"

/-- The dump of a blueprint: a header, then one line for each instruction. -/
def text (b : Blueprint) : String :=
  b.header ++ String.join (b.code.toList.zipIdx.map fun (i, index) => line index i)

end Blueprint

end RecordMachine
