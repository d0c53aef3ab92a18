import RecordMachine.Value

/-!
# Program trees

The programs that are compiled: record types with initial values for their fields, and functions
with statements and expressions. Names are not resolved here, and type names are kept but never
looked at.
-/

namespace RecordMachine

inductive Literal where
  | int (n : Int64)
  | double (x : Float)
  | bool (b : Bool)
  | char (c : Char)
  | string (s : String)
  | nil
deriving DecidableEq, BEq

def Literal.value : Literal → Value
  | .int n => .int n
  | .double x => .double x
  | .bool b => .bool b
  | .char c => .char c
  | .string s => .string s
  | .nil => .nil

inductive UnaryOp where
  | negate | not
deriving DecidableEq, BEq

inductive BinaryOp where
  | add | sub | mul | div | mod
  | eq | ne | lt | le | gt | ge
  | and | or
deriving DecidableEq, BEq

/-- Which way a counting loop counts. -/
inductive Direction where
  | upTo | downTo
deriving DecidableEq, BEq

inductive Expr where
  | literal (l : Literal)
  /-- A variable, followed by the fields to go through. -/
  | path (names : List String)
  /-- A new object of a record type. -/
  | new (type : String)
  | call (name : String) (args : List Expr)
  | unary (op : UnaryOp) (operand : Expr)
  | binary (op : BinaryOp) (left right : Expr)
  /-- An expression in parentheses. -/
  | group (inner : Expr)
deriving BEq

/-- A variable, or a field of a record type, with its initial value. -/
structure VarDecl where
  name : String
  type : Option String := none
  init : Expr
deriving BEq

mutual

inductive Stmt where
  | declare (decl : VarDecl)
  | assign (target : List String) (value : Expr)
  | ifChain (chain : Chain)
  | whileLoop (cond : Expr) (body : List Stmt)
  | forLoop (var : String) (start : Expr) (direction : Direction) (stop : Expr) (body : List Stmt)
  | ret (value : Option Expr)
  | delete (name : String)
  | call (name : String) (args : List Expr)

/-- The branches of a conditional statement: those with a condition first, then possibly one
without. -/
inductive Chain where
  | done
  | otherwise (body : List Stmt)
  | branch (cond : Expr) (body : List Stmt) (rest : Chain)

end

deriving instance BEq for Stmt, Chain

namespace Chain

/-- The chain of some branches and an optional last one without a condition. -/
def ofBranches (branches : List (Expr × List Stmt)) (otherwise : Option (List Stmt)) : Chain :=
  let last := match otherwise with
    | none => .done
    | some body => .otherwise body
  branches.foldr (fun (cond, body) rest => .branch cond body rest) last

def branches : Chain → List (Expr × List Stmt)
  | .branch cond body rest => (cond, body) :: rest.branches
  | _ => []

def otherwise? : Chain → Option (List Stmt)
  | .done => none
  | .otherwise body => some body
  | .branch _ _ rest => rest.otherwise?

/-- Whether nothing is left to try. -/
def isDone : Chain → Bool
  | .done => true
  | _ => false

end Chain

structure Param where
  name : String
  type : String
deriving DecidableEq, BEq

/-- A record type. -/
structure TypeDecl where
  name : String
  fields : List VarDecl
deriving BEq

structure FunDecl where
  name : String
  returnType : String
  params : List Param
  body : List Stmt
deriving BEq

structure Program where
  types : List TypeDecl
  functions : List FunDecl
deriving BEq, Inhabited

namespace Program

def function? (p : Program) (name : String) : Option FunDecl :=
  p.functions.find? fun f => f.name == name

/-- The record type of a name: its last declaration. -/
def record? (p : Program) (type : String) : Option TypeDecl :=
  p.types.reverse.find? fun d => d.name == type

end Program

/-! ## Shorthands -/

namespace Expr

def var (name : String) : Expr := .path [name]

end Expr

namespace Stmt

def print (e : Expr) : Stmt := .call "print" [e]

end Stmt

namespace FunDecl

/-- The function that programs start in, as it is by default. -/
def main (body : List Stmt) : FunDecl := ⟨"main", "void", [], body⟩

end FunDecl

namespace Program

/-- The program that is one function. -/
def ofMain (body : List Stmt) : Program := ⟨[], [FunDecl.main body]⟩

end Program

end RecordMachine
