import RecordMachine.Json.Access
import RecordMachine.Json.Reader
import RecordMachine.Tree.Encoding

/-!
# Trees from documents

Reads the documents that `RecordMachine.Tree.Encoding` writes, and the other spellings that stand
for the same tree. Reading goes down at most as many levels as the document has. Throughout, `loose`
says whether an object without members may spell that an alternative carries nothing.
-/

namespace RecordMachine

def Json.names? (j : Json) : Option (List String) := j.listOf? Json.string?

def Literal.ofJson? (loose : Bool) (j : Json) : Option Literal :=
  match j.variant? with
  | some ("Int", some content) => content.int64?.map .int
  | some ("Double", some content) => content.double?.map .double
  | some ("Bool", some content) => content.bool?.map .bool
  | some ("Char", some content) => content.char?.map .char
  | some ("String", some content) => content.string?.map .string
  | some ("Nil", _) => (j.unit? loose).map fun _ => .nil
  | _ => none

def UnaryOp.ofJson? (loose : Bool) (j : Json) : Option UnaryOp :=
  (j.unit? loose).bind fun name => [UnaryOp.negate, .not].find? fun op => op.name == name

def BinaryOp.ofJson? (loose : Bool) (j : Json) : Option BinaryOp :=
  (j.unit? loose).bind fun name =>
    [BinaryOp.add, .sub, .mul, .div, .mod, .eq, .ne, .lt, .le, .gt, .ge, .and, .or].find?
      fun op => op.name == name

def Direction.ofJson? (loose : Bool) (j : Json) : Option Direction :=
  (j.unit? loose).bind fun name => [Direction.upTo, .downTo].find? fun d => d.name == name

/-- Reads an expression of at most the given number of levels. -/
def Expr.ofJson? (loose : Bool) : Nat → Json → Option Expr
  | 0, _ => none
  | depth + 1, j =>
    match j.variant? with
    | some ("Literal", some content) => (Literal.ofJson? loose content).map .literal
    | some ("Path", some content) => content.names?.map .path
    | some ("New", some content) => content.string?.map .new
    | some ("Call", some content) => do
      let [name, args] ← content.record? [("name", .required), ("args", .required)] | none
      let name ← name.string?
      let args ← args.listOf? (Expr.ofJson? loose depth)
      return .call name args
    | some ("Unary", some content) => do
      let [op, e] ← content.record? [("op", .required), ("expr", .required)] | none
      let op ← UnaryOp.ofJson? loose op
      let e ← Expr.ofJson? loose depth e
      return .unary op e
    | some ("Binary", some content) => do
      let [op, left, right] ←
        content.record? [("op", .required), ("left", .required), ("right", .required)] | none
      let op ← BinaryOp.ofJson? loose op
      let left ← Expr.ofJson? loose depth left
      let right ← Expr.ofJson? loose depth right
      return .binary op left right
    | some ("Group", some content) => (Expr.ofJson? loose depth content).map .group
    | _ => none

def VarDecl.ofJson? (loose : Bool) (depth : Nat) (j : Json) : Option VarDecl := do
  let [name, type, init] ←
    j.record? [("name", .required), ("ty", .optional), ("init", .required)] | none
  let name ← name.string?
  let type ← type.optional? Json.string?
  let init ← Expr.ofJson? loose depth init
  return ⟨name, type, init⟩

/-- Reads a statement of at most the given number of levels. -/
def Stmt.ofJson? (loose : Bool) : Nat → Json → Option Stmt
  | 0, _ => none
  | depth + 1, j =>
    match j.variant? with
    | some ("VarDecl", some content) => (VarDecl.ofJson? loose depth content).map .declare
    | some ("Assign", some content) => do
      let [target, value] ← content.record? [("target", .required), ("value", .required)] | none
      let target ← target.names?
      let value ← Expr.ofJson? loose depth value
      return .assign target value
    | some ("If", some content) => do
      let [branches, last] ←
        content.record? [("branches", .required), ("else_body", .optional)] | none
      let branches ← branches.listOf? fun j => do
        let [cond, body] ← j.record? [("cond", .required), ("body", .required)] | none
        let cond ← Expr.ofJson? loose depth cond
        let body ← body.listOf? (Stmt.ofJson? loose depth)
        return (cond, body)
      let last ← last.optional? fun j => j.listOf? (Stmt.ofJson? loose depth)
      return .ifChain (.ofBranches branches last)
    | some ("While", some content) => do
      let [cond, body] ← content.record? [("cond", .required), ("body", .required)] | none
      let cond ← Expr.ofJson? loose depth cond
      let body ← body.listOf? (Stmt.ofJson? loose depth)
      return .whileLoop cond body
    | some ("For", some content) => do
      let [var, start, direction, stop, body] ← content.record?
        [("var", .required), ("start", .required), ("direction", .required), ("end", .required),
          ("body", .required)] | none
      let var ← var.string?
      let start ← Expr.ofJson? loose depth start
      let direction ← Direction.ofJson? loose direction
      let stop ← Expr.ofJson? loose depth stop
      let body ← body.listOf? (Stmt.ofJson? loose depth)
      return .forLoop var start direction stop body
    | some ("Return", some content) => (content.optional? (Expr.ofJson? loose depth)).map .ret
    | some ("Delete", some content) => content.string?.map .delete
    | some ("Call", some content) => do
      let [name, args] ← content.record? [("name", .required), ("args", .required)] | none
      let name ← name.string?
      let args ← args.listOf? (Expr.ofJson? loose depth)
      return .call name args
    | _ => none

def Param.ofJson? (j : Json) : Option Param := do
  let [name, type] ← j.record? [("name", .required), ("ty", .required)] | none
  let name ← name.string?
  let type ← type.string?
  return ⟨name, type⟩

def TypeDecl.ofJson? (loose : Bool) (depth : Nat) (j : Json) : Option TypeDecl := do
  let [name, fields] ← j.record? [("name", .required), ("fields", .required)] | none
  let name ← name.string?
  let fields ← fields.listOf? (VarDecl.ofJson? loose depth)
  return ⟨name, fields⟩

def FunDecl.ofJson? (loose : Bool) (depth : Nat) (j : Json) : Option FunDecl := do
  let [name, returnType, params, body] ← j.record?
    [("name", .required), ("return_type", .required), ("params", .required), ("body", .required)]
    | none
  let name ← name.string?
  let returnType ← returnType.string?
  let params ← params.listOf? Param.ofJson?
  let body ← body.listOf? (Stmt.ofJson? loose depth)
  return ⟨name, returnType, params, body⟩

def Program.ofJsonWith? (loose : Bool) (j : Json) : Option Program := do
  let [types, functions] ← j.record? [("types", .required), ("functions", .required)] | none
  let types ← types.listOf? (TypeDecl.ofJson? loose j.depth)
  let functions ← functions.listOf? (FunDecl.ofJson? loose j.depth)
  return ⟨types, functions⟩

def Program.ofJson? (j : Json) : Option Program := Program.ofJsonWith? false j

namespace VersionedProgram

/-- Reads a program with its version, which has 32 bits. The document has to be an object: its parts
have no order among themselves. In what it holds, an alternative that carries nothing may also be
spelled with an object without members. -/
def ofJson? : Json → Option VersionedProgram
  | .object members => do
    let version ← Json.field? members ("ast_version", .required)
    let version ← version.nat? (Nat.pow 2 32)
    let program ← Program.ofJsonWith? true (.object members)
    return ⟨version, program⟩
  | _ => none

/-- Reads the text by which a program is handed over. -/
def parse? (text : String) : Option VersionedProgram := (Json.parse? text.toList).bind ofJson?

end VersionedProgram

end RecordMachine
