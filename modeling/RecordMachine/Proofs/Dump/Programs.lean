import RecordMachine.Proofs.Dump.Blueprints
import RecordMachine.Proofs.Lowering.Emission

/-!
# Dumps of compiled programs

The names that a dump shows are those of functions and fields, and its literals are those of the
program. Where the names are identifiers and no literal is a double (`Program.Legible`), the
compiled program is legible (`Program.legible_of_lower`), so its dump tells it from every other such
program (`Program.dump_tells_apart`).
-/

namespace RecordMachine

/-! ## Legible programs -/

/-- Whether what the expression itself contributes to a dump is legible: a path and a call their
names, a literal its value. -/
def Expr.isLegible : Expr → Bool
  | .literal l => l.value.isLegible
  | .path names => names.all Text.isIdentifier
  | .call name _ => Text.isIdentifier name
  | _ => true

/-- The names of the functions and fields, and those in paths and calls, are identifiers, and no
literal is a double. -/
structure Program.Legible (p : Program) : Prop where
  functions : ∀ f ∈ p.functions, Text.isIdentifier f.name = true
  fields : ∀ d ∈ p.types, ∀ f ∈ d.fields, Text.isIdentifier f.name = true
  expressions : p.all Expr.isLegible = true

/-- The names of the fields of record types are identifiers. -/
def TypeTable.Legible (table : TypeTable) : Prop :=
  ∀ type names, table.fields? type = some names → ∀ n ∈ names, Text.isIdentifier n = true

/-- The table of a legible program is legible. -/
theorem TypeTable.legible_ofProgram {p : Program} (hp : p.Legible) : (ofProgram p).Legible := by
  intro type names hnames n hn
  rw [fields?_ofProgram, Option.map_eq_some_iff] at hnames
  obtain ⟨d, hd, rfl⟩ := hnames
  obtain ⟨f, hf, rfl⟩ := List.mem_map.1 hn
  exact hp.fields d (List.mem_reverse.1 (List.mem_of_find?_eq_some hd)) f hf

/-! ## Lowered code -/

namespace Instruction.Legible

theorem plain {op : Opcode} (hop : op.operandKind = none) : (Instruction.plain op).Legible where
  kind := hop.symm
  operand := nofun
  comment := nofun

/-- An instruction with an operand of its kind is legible if the operand is. -/
theorem carrying {op : Opcode} {o : Operand} (hkind : some o.kind = op.operandKind)
    (ho : o.isLegible = true) : Legible ⟨op, some o, none⟩ where
  kind := hkind
  operand := by
    rintro _ ⟨⟩
    exact ho
  comment := nofun

/-- A comment of one line keeps an instruction legible. -/
theorem withComment {i : Instruction} (hi : i.Legible) {comment : String}
    (hcomment : '\n' ∉ comment.toList) : (i.withComment comment).Legible where
  kind := hi.kind
  operand := hi.operand
  comment := by
    rintro _ ⟨⟩
    exact hcomment

end Instruction.Legible

/-- What lowering makes of legible expressions is legible. -/
theorem Emitted.legible {table : TypeTable} {types : List TypeDecl} (htable : table.Legible)
    (hfields : ∀ d ∈ types, ∀ f ∈ d.fields, Text.isIdentifier f.name = true) {i : Instruction}
    (h : Emitted table types Expr.isLegible i) : i.Legible := by
  cases h with
  | plain hop => exact .plain hop
  | literal hl => exact .carrying rfl hl
  | nil => exact .carrying rfl rfl
  | one => exact .carrying rfl rfl
  | load slot => exact .carrying rfl rfl
  | store slot => exact .carrying rfl rfl
  | jump target => exact .carrying rfl rfl
  | jumpIfFalse target => exact .carrying rfl rfl
  | call hcall => exact .carrying rfl hcall
  | getField hpath hfield => exact .carrying rfl (List.all_eq_true.1 hpath _ hfield)
  | setField hpath hfield => exact .carrying rfl (List.all_eq_true.1 hpath _ hfield)
  | alloc hnames => exact .carrying rfl (List.all_eq_true.2 (htable _ _ hnames))
  | init hd hfield => exact .carrying rfl (hfields _ hd _ hfield)
  | cleanUp => exact (Instruction.Legible.plain rfl).withComment (by decide)

/-- A legible program is compiled into a legible one. -/
theorem Program.legible_of_lower {p : Program} {table : TypeTable} {bc : Bytecode} (hp : p.Legible)
    (htable : table.Legible) (hbc : p.lower table = .ok bc) : bc.Legible := by
  intro b hb
  have hcode := Program.emitted_of_lower hp.expressions hbc hb
  obtain ⟨f, hf, hlowered⟩ := Program.exists_of_mem_blueprints hbc hb
  constructor
  · rw [FunDecl.name_of_lower hlowered]
    exact hp.functions f hf
  · intro i hi
    exact (hcode i hi).legible htable hp.fields

/-! ## The dump -/

namespace Program

/-- Compiled programs with the same dump have the same blueprints in the same order, with the same
names, numbers of parameters and instructions. A dump has one line for each blueprint and one for
each instruction, whatever characters the literals contain. -/
theorem dump_tells_apart {p q : Program} {table table' : TypeTable} {bc bc' : Bytecode}
    (hp : p.Legible) (hq : q.Legible) (htable : table.Legible) (htable' : table'.Legible)
    (hbc : p.lower table = .ok bc) (hbc' : q.lower table' = .ok bc') :
    (bc.dump = bc'.dump → bc.blueprints = bc'.blueprints) ∧
      bc.dump = String.join bc.lines ∧ (∀ l ∈ bc.lines, Text.IsLine l) ∧
      bc.lines.length
        = bc.blueprints.length + (bc.blueprints.flatMap fun b => b.code.toList).length := by
  have hlegible : bc.Legible := legible_of_lower hp htable hbc
  refine ⟨?_, bc.dump_eq_join, fun l hl => Bytecode.isLine_of_mem_lines hlegible hl,
    bc.length_lines⟩
  exact Bytecode.blueprints_eq_of_dump hlegible (legible_of_lower hq htable' hbc')

def printing (s : String) : Program := .ofMain [.print (.literal (.string s))]

/-- A program that prints one text, compiled. -/
def printingCode (s : String) : Bytecode :=
  .ofList
    [⟨"main", 0, #[.push (.string s), .plain .write, .push .nil,
      (Instruction.plain .pop).withComment "clean up call return value", .push .nil, .plain .ret]⟩]

/-- Whatever the text is: a literal string is shown escaped. -/
theorem legible_printing (s : String) : (printing s).Legible where
  functions := by
    intro f hf
    rw [List.mem_singleton.1 hf]
    show Text.isIdentifier "main" = true
    decide
  fields := nofun
  expressions := by
    show (Text.isIdentifier "print" && true && true) = true
    decide

theorem lower_printing (s : String) :
    (printing s).lower (.ofProgram (printing s)) = .ok (printingCode s) := rfl

/-- A line break and a backslash before an `n` are shown in two ways, on one line each. -/
theorem dump_tells_apart_line_break :
    (printing "a\n").lower (.ofProgram (printing "a\n")) = .ok (printingCode "a\n") ∧
    (printing "a\\n").lower (.ofProgram (printing "a\\n")) = .ok (printingCode "a\\n") ∧
    (printingCode "a\n").dump ≠ (printingCode "a\\n").dump ∧
    (printingCode "a\n").lines.length = 7 := by
  obtain ⟨hdump, _, _, hlength⟩ := dump_tells_apart (legible_printing "a\n")
    (legible_printing "a\\n") (TypeTable.legible_ofProgram (legible_printing "a\n"))
    (TypeTable.legible_ofProgram (legible_printing "a\\n")) (lower_printing _) (lower_printing _)
  refine ⟨lower_printing _, lower_printing _, fun heq => ?_, hlength⟩
  have hblueprints := hdump heq
  exact absurd hblueprints (by decide)

end Program

end RecordMachine
