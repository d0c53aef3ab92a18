import RecordMachine.Instruction
import RecordMachine.Lowering.Error
import RecordMachine.Lowering.Scope
import RecordMachine.TypeTable

/-!
# Lowering expressions

The code of an expression leaves one value on the operand stack. It declares nothing and contains no
jump, so it does not depend on where it stands, and its scope stays the same throughout. A new
object is made with all fields nil and is then given its initial values one by one; these are
lowered in the scope of the construction.
-/

namespace RecordMachine

/-- Code under construction. -/
abbrev Code := List Instruction

/-- What lowering knows besides the scope. -/
structure Context where
  table : TypeTable
  /-- The record types of the program. -/
  types : List TypeDecl
  /-- The function being lowered. -/
  function : String

/-- A function that instructions of its own carry out. -/
structure Builtin where
  arity : Nat
  /-- What follows the code of the arguments. -/
  code : Code

/-- The built-in functions. Printing takes its argument and yields nil. -/
def Builtin.find? (name : String) : Option Builtin :=
  match name with
  | "print" => some ⟨1, [.plain .write, .push .nil]⟩
  | "read" => some ⟨0, [.plain .read]⟩
  | "length" => some ⟨1, [.plain .len]⟩
  | "get" => some ⟨2, [.plain .getChar]⟩
  | "stoi" | "dtoi" => some ⟨1, [.plain .toInt]⟩
  | "stod" | "itod" => some ⟨1, [.plain .toDouble]⟩
  | "itos" | "dtos" => some ⟨1, [.plain .toText]⟩
  | _ => none

def UnaryOp.opcode : UnaryOp → Opcode
  | .negate => .neg
  | .not => .not

def BinaryOp.opcode : BinaryOp → Opcode
  | .add => .add
  | .sub => .sub
  | .mul => .mul
  | .div => .div
  | .mod => .mod
  | .eq => .cmpEq
  | .ne => .cmpNe
  | .lt => .cmpLt
  | .le => .cmpLe
  | .gt => .cmpGt
  | .ge => .cmpGe
  | .and => .and
  | .or => .or

namespace Context

/-- The slot of a variable that has to be visible. -/
def slot (ctx : Context) (scope : Scope) (name : String) : Except LoweringError Nat :=
  match scope.resolve? name with
  | some slot => .ok slot
  | none => .error (.unknownVariable name ctx.function)

/-- Reads a variable and goes through the fields that follow. -/
def pathCode (ctx : Context) (scope : Scope) : List String → Except LoweringError Code
  | [] => .error (.emptyPath ctx.function)
  | base :: fields => do
    let slot ← ctx.slot scope base
    return .load slot :: fields.map .getField

/-- Refuses a wrong number of arguments. -/
def checkArity (name : String) (expected found : Nat) : Except LoweringError Unit :=
  if expected = found then .ok () else .error (.arityMismatch name expected found)

/-- What follows the code of the arguments of a call. A built-in function takes precedence over one
of the program. -/
def calleeCode (ctx : Context) (name : String) (args : Nat) : Except LoweringError Code :=
  match Builtin.find? name with
  | some builtin => do
    checkArity name builtin.arity args
    return builtin.code
  | none =>
    match ctx.table.arity? name with
    | none => .error (.unknownFunction name ctx.function)
    | some arity => do
      checkArity name arity args
      return [.call name]

/-- The declaration of a record type: the last one of its name. -/
def decl? (ctx : Context) (type : String) : Option TypeDecl :=
  ctx.types.reverse.find? fun d => d.name == type

/-- The field names of a record type and their initial values. The type has to be known to both the
table and the program. -/
def layout (ctx : Context) (type : String) : Except LoweringError (List String × List VarDecl) :=
  match ctx.table.fields? type, ctx.decl? type with
  | some names, some decl => .ok (names, decl.fields)
  | _, _ => .error (.unknownType type ctx.function)

end Context

mutual

/-- The code of an expression, given that of constructing an object of a record type. -/
def Expr.codeWith (ctx : Context) (scope : Scope) (construct : String → Except LoweringError Code) :
    Expr → Except LoweringError Code
  | .literal l => .ok [.push l.value]
  | .path names => ctx.pathCode scope names
  | .new type => construct type
  | .call name args => do
    let callee ← ctx.calleeCode name args.length
    let operands ← Expr.codeAllWith ctx scope construct args
    return operands ++ callee
  | .unary op e => do
    let operand ← Expr.codeWith ctx scope construct e
    return operand ++ [.plain op.opcode]
  | .binary op left right => do
    let left ← Expr.codeWith ctx scope construct left
    let right ← Expr.codeWith ctx scope construct right
    return left ++ right ++ [.plain op.opcode]
  | .group e => Expr.codeWith ctx scope construct e

def Expr.codeAllWith (ctx : Context) (scope : Scope)
    (construct : String → Except LoweringError Code) :
    List Expr → Except LoweringError Code
  | [] => .ok []
  | e :: rest => do
    let first ← Expr.codeWith ctx scope construct e
    let rest ← Expr.codeAllWith ctx scope construct rest
    return first ++ rest

end

/-- Gives the fields of the object on top of the stack their initial values. -/
def fieldsCode (lower : Expr → Except LoweringError Code) :
    List VarDecl → Except LoweringError Code
  | [] => .ok []
  | field :: rest => do
    let init ← lower field.init
    let rest ← fieldsCode lower rest
    return .plain .dup :: (init ++ .setField field.name :: rest)

/-- The code of constructing an object of a record type, with at most `depth` constructions inside
one another. -/
def constructCode (ctx : Context) (scope : Scope) : Nat → String → Except LoweringError Code
  | 0, type => do
    let _ ← ctx.layout type
    .error (.endlessRecord type ctx.function)
  | depth + 1, type => do
    let (names, fields) ← ctx.layout type
    let inits ← fieldsCode (Expr.codeWith ctx scope (constructCode ctx scope depth)) fields
    return .alloc names :: inits

/-- How many constructions may stand inside one another: as many as there are record types. A deeper
one meets some type inside itself, and then never ends, since the scope is the same each time. -/
def Context.depthLimit (ctx : Context) : Nat := ctx.types.length

def Expr.code (ctx : Context) (scope : Scope) (e : Expr) : Except LoweringError Code :=
  e.codeWith ctx scope (constructCode ctx scope ctx.depthLimit)

end RecordMachine
