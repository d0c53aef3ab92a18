import RecordMachine.Proofs.Lowering.Emission

/-!
# Code without object literals

A value is pushed by an instruction that carries it, and nothing keeps bytecode from carrying the id
of an object there. Code that does not do so is `Unforged`. Lowered code never does: what it pushes
are the literals of the program, the step of a counting loop, and nil.
-/

namespace RecordMachine

/-- Whether the instruction pushes an object that it names itself. -/
def Instruction.forges (i : Instruction) : Bool :=
  match i.opcode, i.operand with
  | .push, some (.value (.object _)) => true
  | _, _ => false

/-- No instruction pushes an object that it names itself. -/
def Code.Unforged (c : Code) : Prop := ∀ i ∈ c, i.forges = false

/-- No instruction of any function pushes an object that it names itself. -/
def Bytecode.Unforged (bc : Bytecode) : Prop := ∀ b ∈ bc.blueprints, Code.Unforged b.code.toList

instance (c : Code) : Decidable (Code.Unforged c) := inferInstanceAs (Decidable (∀ i ∈ c, _))

instance (bc : Bytecode) : Decidable bc.Unforged :=
  inferInstanceAs (Decidable (∀ b ∈ bc.blueprints, _))

/-- No instruction that lowering makes names an object: literals are numbers, texts and truth
values. -/
theorem Emitted.forges_eq_false {table : TypeTable} {types : List TypeDecl} {ok : Expr → Bool}
    {i : Instruction} (h : Emitted table types ok i) : i.forges = false := by
  cases h with
  | @plain op _ => cases op <;> rfl
  | @literal l _ => cases l <;> rfl
  | nil | one | load | store | jump | jumpIfFalse | call | getField | setField | alloc | init
  | cleanUp => rfl

/-- A compiled program has no object literals. -/
theorem Program.unforged_of_lower {p : Program} {table : TypeTable} {bc : Bytecode}
    (hlower : p.lower table = .ok bc) : bc.Unforged := by
  intro b hb i hi
  exact (Program.emitted_of_lower p.all_true hlower hb i hi).forges_eq_false

end RecordMachine
