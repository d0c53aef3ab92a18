import RecordMachine.Json.Writer
import RecordMachine.Tree.Basic

/-!
# Trees as documents

The JSON document of a program tree, by which a front end hands a program over. It carries the
version of the format next to the two parts of the program.
-/

namespace RecordMachine

/-- The version of the format that this library writes. -/
def treeVersion : Nat := 1

/-- The document of an alternative that carries something. -/
def Json.tagged (name : String) (content : Json) : Json := .object [(name, content)]

def Json.ofOption {α : Type} (write : α → Json) : Option α → Json
  | none => .null
  | some a => write a

def Json.ofNames (names : List String) : Json := .array (names.map .string)

def Literal.toJson : Literal → Json
  | .int n => .tagged "Int" (.int n.toInt)
  | .double x => .tagged "Double" (.double x)
  | .bool b => .tagged "Bool" (.bool b)
  | .char c => .tagged "Char" (.string (String.ofList [c]))
  | .string s => .tagged "String" (.string s)
  | .nil => .string "Nil"

def UnaryOp.name : UnaryOp → String
  | .negate => "Negate"
  | .not => "Not"

def BinaryOp.name : BinaryOp → String
  | .add => "Add"
  | .sub => "Sub"
  | .mul => "Mul"
  | .div => "Div"
  | .mod => "Mod"
  | .eq => "Eq"
  | .ne => "Ne"
  | .lt => "Lt"
  | .le => "Le"
  | .gt => "Gt"
  | .ge => "Ge"
  | .and => "And"
  | .or => "Or"

def Direction.name : Direction → String
  | .upTo => "Upto"
  | .downTo => "Downto"

mutual

def Expr.toJson : Expr → Json
  | .literal l => .tagged "Literal" l.toJson
  | .path names => .tagged "Path" (.ofNames names)
  | .new type => .tagged "New" (.string type)
  | .call name args =>
    .tagged "Call" (.object [("name", .string name), ("args", .array (Expr.allToJson args))])
  | .unary op e => .tagged "Unary" (.object [("op", .string op.name), ("expr", e.toJson)])
  | .binary op left right =>
    .tagged "Binary"
      (.object [("op", .string op.name), ("left", left.toJson), ("right", right.toJson)])
  | .group e => .tagged "Group" e.toJson

def Expr.allToJson : List Expr → List Json
  | [] => []
  | e :: rest => e.toJson :: Expr.allToJson rest

end

def VarDecl.toJson (d : VarDecl) : Json :=
  .object [("name", .string d.name), ("ty", .ofOption .string d.type), ("init", d.init.toJson)]

mutual

def Stmt.toJson : Stmt → Json
  | .declare decl => .tagged "VarDecl" decl.toJson
  | .assign target value =>
    .tagged "Assign" (.object [("target", .ofNames target), ("value", value.toJson)])
  | .ifChain chain =>
    .tagged "If" (.object
      [("branches", .array (Chain.branchesToJson chain)),
        ("else_body", Chain.otherwiseToJson chain)])
  | .whileLoop cond body =>
    .tagged "While" (.object [("cond", cond.toJson), ("body", .array (Stmt.allToJson body))])
  | .forLoop var start direction stop body =>
    .tagged "For" (.object
      [("var", .string var), ("start", start.toJson), ("direction", .string direction.name),
        ("end", stop.toJson), ("body", .array (Stmt.allToJson body))])
  | .ret value => .tagged "Return" (.ofOption Expr.toJson value)
  | .delete name => .tagged "Delete" (.string name)
  | .call name args =>
    .tagged "Call" (.object [("name", .string name), ("args", .array (Expr.allToJson args))])

def Stmt.allToJson : List Stmt → List Json
  | [] => []
  | s :: rest => s.toJson :: Stmt.allToJson rest

def Chain.branchesToJson : Chain → List Json
  | .branch cond body rest =>
    .object [("cond", cond.toJson), ("body", .array (Stmt.allToJson body))]
      :: Chain.branchesToJson rest
  | _ => []

def Chain.otherwiseToJson : Chain → Json
  | .done => .null
  | .otherwise body => .array (Stmt.allToJson body)
  | .branch _ _ rest => Chain.otherwiseToJson rest

end

def Param.toJson (p : Param) : Json :=
  .object [("name", .string p.name), ("ty", .string p.type)]

def TypeDecl.toJson (d : TypeDecl) : Json :=
  .object [("name", .string d.name), ("fields", .array (d.fields.map VarDecl.toJson))]

def FunDecl.toJson (f : FunDecl) : Json :=
  .object [("name", .string f.name), ("return_type", .string f.returnType),
    ("params", .array (f.params.map Param.toJson)), ("body", .array (Stmt.allToJson f.body))]

/-- A program together with the version of its format. -/
structure VersionedProgram where
  version : Nat
  program : Program
deriving BEq

namespace VersionedProgram

def toJson (v : VersionedProgram) : Json :=
  .object [("ast_version", .int v.version), ("types", .array (v.program.types.map TypeDecl.toJson)),
    ("functions", .array (v.program.functions.map FunDecl.toJson))]

/-- The text by which a program is handed over. -/
def render (v : VersionedProgram) : String := v.toJson.render

end VersionedProgram

end RecordMachine
