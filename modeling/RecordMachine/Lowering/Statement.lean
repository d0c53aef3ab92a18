import RecordMachine.Lowering.Expression

/-!
# Lowering statements

The code of a statement leaves the operand stack as it was. Jumps are absolute, so a statement is
lowered for the index `base` at which its code will stand; the targets of its jumps follow from that
and from the lengths of its parts. The scope after a statement is part of the result. A body is a
block of its own: what it declares is no longer visible after it, but its slots stay used.
-/

namespace RecordMachine

/-- Stores the value on top of the stack into a variable or into a field that a path leads to. The
object is fetched after the value, which is why the two are swapped. -/
def assignCode (slot : Nat) (fields : List String) : Code :=
  match fields.getLast? with
  | none => [.store slot]
  | some last =>
    .load slot :: (fields.dropLast.map .getField ++ [.plain .swap, .setField last])

/-- The comparison that keeps a counting loop going. -/
def Direction.test : Direction → Opcode
  | .upTo => .cmpLe
  | .downTo => .cmpGe

/-- How a counting loop changes its variable. -/
def Direction.advance : Direction → Opcode
  | .upTo => .add
  | .downTo => .sub

mutual

/-- The code of a statement that will stand at `base`, and the scope after it. -/
def Stmt.code (ctx : Context) (base : Nat) (scope : Scope) :
    Stmt → Except LoweringError (Code × Scope)
  | .declare decl => do
    -- The initial value does not see the variable yet.
    let init ← decl.init.code ctx scope
    return (init ++ [.store scope.nextSlot], scope.declare decl.name)
  | .assign [] _ => .error (.emptyPath ctx.function)
  | .assign (name :: fields) value => do
    let value ← value.code ctx scope
    let slot ← ctx.slot scope name
    return (value ++ assignCode slot fields, scope)
  | .ifChain chain => do
    let (code, scope) ← Chain.code ctx base scope chain
    return (code ++ [.plain .nop], scope)
  | .whileLoop cond body => do
    let test ← cond.code ctx scope
    let (body, scope) ← Stmt.sequenceCode ctx (base + test.length + 1) scope.enter body
    let landing := base + test.length + 1 + body.length + 1
    return (test ++ .jumpIfFalse landing :: (body ++ [.jump base, .plain .nop]), scope.leave)
  | .forLoop var start direction stop body => do
    let scope := scope.enter
    let start ← start.code ctx scope
    -- A visible variable of that name is used; otherwise the loop declares its own.
    let (slot, scope) := match scope.resolve? var with
      | some slot => (slot, scope)
      | none => (scope.nextSlot, scope.declare var)
    let again := base + start.length + 1
    let stop ← stop.code ctx scope
    let test : Code := .load slot :: (stop ++ [.plain direction.test])
    let (body, scope) ← Stmt.sequenceCode ctx (again + test.length + 1) scope.enter body
    let advance : Code :=
      [.load slot, .push (.int 1), .plain direction.advance, .store slot, .jump again]
    let landing := again + test.length + 1 + body.length + advance.length
    return (start ++ .store slot ::
      (test ++ .jumpIfFalse landing :: (body ++ advance ++ [.plain .nop])), scope.leave.leave)
  | .ret none => .ok ([.push .nil, .plain .ret], scope)
  | .ret (some e) => do
    let value ← e.code ctx scope
    return (value ++ [.plain .ret], scope)
  | .delete name => do
    let slot ← ctx.slot scope name
    -- The variable must not keep the id of an object that is gone.
    return ([.load slot, .plain .free, .push .nil, .store slot], scope)
  | .call name args => do
    let value ← (Expr.call name args).code ctx scope
    return (value ++ [(Instruction.plain .pop).withComment "clean up call return value"], scope)

def Stmt.sequenceCode (ctx : Context) (base : Nat) (scope : Scope) :
    List Stmt → Except LoweringError (Code × Scope)
  | [] => .ok ([], scope)
  | s :: rest => do
    let (first, scope) ← Stmt.code ctx base scope s
    let (rest, scope) ← Stmt.sequenceCode ctx (base + first.length) scope rest
    return (first ++ rest, scope)

/-- The code of the branches of a conditional statement, which ends where all of them meet again. A
branch that others follow jumps there over them. -/
def Chain.code (ctx : Context) (base : Nat) (scope : Scope) :
    Chain → Except LoweringError (Code × Scope)
  | .done => .ok ([], scope)
  | .otherwise body => do
    let (body, scope) ← Stmt.sequenceCode ctx base scope.enter body
    return (body, scope.leave)
  | .branch cond body rest => do
    let test ← cond.code ctx scope
    let (body, scope) ← Stmt.sequenceCode ctx (base + test.length + 1) scope.enter body
    let exits := if rest.isDone then 0 else 1
    let next := base + test.length + 1 + body.length + exits
    let (rest, scope) ← Chain.code ctx next scope.leave rest
    let exit : Code := List.replicate exits (.jump (next + rest.length))
    return (test ++ .jumpIfFalse next :: (body ++ exit ++ rest), scope)

end

end RecordMachine
