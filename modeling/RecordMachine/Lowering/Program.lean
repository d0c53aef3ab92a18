import RecordMachine.Bytecode
import RecordMachine.Lowering.Statement

/-!
# Lowering programs

Each function becomes one blueprint, in the order of the declarations. Its parameters fill the first
slots, and if its last statement is no return it ends by returning nil.
-/

namespace RecordMachine

def Stmt.isReturn : Stmt → Bool
  | .ret _ => true
  | _ => false

/-- What follows the statements of a function. -/
def closingCode (body : List Stmt) : Code :=
  if body.getLast?.any Stmt.isReturn then [] else [.push .nil, .plain .ret]

def FunDecl.lower (f : FunDecl) (table : TypeTable) (types : List TypeDecl) :
    Except LoweringError Blueprint := do
  let ctx : Context := ⟨table, types, f.name⟩
  let (code, _) ← Stmt.sequenceCode ctx 0 (Scope.ofParams (f.params.map Param.name)) f.body
  return ⟨f.name, f.params.length, (code ++ closingCode f.body).toArray⟩

namespace Program

/-- Lowers functions one after the other and adds their blueprints, until one of them cannot be
lowered. -/
def lowerAll (table : TypeTable) (types : List TypeDecl) :
    Bytecode → List FunDecl → Bytecode × Option LoweringError
  | bc, [] => (bc, none)
  | bc, f :: rest =>
    if bc.contains f.name then (bc, some (.duplicateFunction f.name))
    else
      match f.lower table types with
      | .error e => (bc, some e)
      | .ok b => lowerAll table types (bc.insert b) rest

/-- The blueprints of a program as far as lowering gets, and what stops it. -/
def lowering (p : Program) (table : TypeTable) : Bytecode × Option LoweringError :=
  lowerAll table p.types .empty p.functions

def lower (p : Program) (table : TypeTable) : Except LoweringError Bytecode :=
  match p.lowering table with
  | (bc, none) => .ok bc
  | (_, some e) => .error e

end Program

end RecordMachine
