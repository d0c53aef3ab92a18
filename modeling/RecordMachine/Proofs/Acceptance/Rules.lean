import Mathlib.Logic.Relation
import RecordMachine.Lowering.Expression

/-!
# Well-formed programs

Which programs make sense, said on the tree alone. Names are looked up lexically: `visible` lists
the names that can be seen at a point, those of parameters, of declarations before the point in an
enclosing block, and of counting loops around it.

* `Expr.WellFormed`, `Stmt.WellFormed`, `Program.WellFormed` — every name that is used means
  something, and every call has the right number of arguments.
* `Expr.FirstDefect`, `Stmt.FirstDefect`, `Program.FirstDefect` — what is wrong first, in the order
  in which a program is read: the name of a function before its body, a callee and the number of its
  arguments before the arguments, a value before the variable that it is assigned to.

An object is constructed from the initial values of its record type, which may construct further
objects. `Constructs` says which types a type constructs directly.
-/

namespace RecordMachine

/-! ## Lists -/

/-- The first element of a list that is not good has the defect `e`. -/
inductive FirstIn {α ε : Type} (good : α → Prop) (bad : α → ε → Prop) : List α → ε → Prop where
  | head {x : α} {rest : List α} {e : ε} (hx : bad x e) : FirstIn good bad (x :: rest) e
  | tail {x : α} {rest : List α} {e : ε} (hx : good x) (hrest : FirstIn good bad rest e) :
      FirstIn good bad (x :: rest) e

/-! ## Expressions -/

/-- The number of parameters of what a call means: the built-in function of that name, or else the
function of the table. -/
def Context.callee? (ctx : Context) (name : String) : Option Nat :=
  match Builtin.find? name with
  | some builtin => some builtin.arity
  | none => ctx.table.arity? name

/-- A record type that the table knows and the program declares; `decl` is its last declaration. -/
def Declares (table : TypeTable) (types : List TypeDecl) (type : String) (decl : TypeDecl) : Prop :=
  (table.fields? type).isSome ∧ (types.reverse.find? fun d => d.name == type) = some decl

/-- An expression is well-formed where the given names are visible. -/
inductive Expr.WellFormed (ctx : Context) (visible : List String) : Expr → Prop where
  | literal (l : Literal) : WellFormed ctx visible (.literal l)
  | path {base : String} {fields : List String} (hbase : base ∈ visible) :
      WellFormed ctx visible (.path (base :: fields))
  | new {type : String} {decl : TypeDecl} (hdecl : Declares ctx.table ctx.types type decl)
      (hinits : ∀ e ∈ decl.fields.map VarDecl.init, WellFormed ctx visible e) :
      WellFormed ctx visible (.new type)
  | call {name : String} {args : List Expr} (hcallee : ctx.callee? name = some args.length)
      (hargs : ∀ e ∈ args, WellFormed ctx visible e) : WellFormed ctx visible (.call name args)
  | unary {op : UnaryOp} {e : Expr} (he : WellFormed ctx visible e) :
      WellFormed ctx visible (.unary op e)
  | binary {op : BinaryOp} {left right : Expr} (hleft : WellFormed ctx visible left)
      (hright : WellFormed ctx visible right) : WellFormed ctx visible (.binary op left right)
  | group {e : Expr} (he : WellFormed ctx visible e) : WellFormed ctx visible (.group e)

/-- The first thing that is wrong with an expression. -/
inductive Expr.FirstDefect (ctx : Context) (visible : List String) :
    Expr → LoweringError → Prop where
  | emptyPath : FirstDefect ctx visible (.path []) (.emptyPath ctx.function)
  | unbound {base : String} {fields : List String} (hbase : base ∉ visible) :
      FirstDefect ctx visible (.path (base :: fields)) (.unknownVariable base ctx.function)
  | undeclared {type : String} (htype : ∀ decl, ¬Declares ctx.table ctx.types type decl) :
      FirstDefect ctx visible (.new type) (.unknownType type ctx.function)
  | init {type : String} {decl : TypeDecl} {e : LoweringError}
      (hdecl : Declares ctx.table ctx.types type decl)
      (hinits : FirstIn (Expr.WellFormed ctx visible) (FirstDefect ctx visible)
        (decl.fields.map VarDecl.init) e) :
      FirstDefect ctx visible (.new type) e
  | callee {name : String} {args : List Expr} (hcallee : ctx.callee? name = none) :
      FirstDefect ctx visible (.call name args) (.unknownFunction name ctx.function)
  | arity {name : String} {args : List Expr} {expected : Nat}
      (hcallee : ctx.callee? name = some expected) (hargs : expected ≠ args.length) :
      FirstDefect ctx visible (.call name args) (.arityMismatch name expected args.length)
  | argument {name : String} {args : List Expr} {e : LoweringError}
      (hcallee : ctx.callee? name = some args.length)
      (hargs : FirstIn (Expr.WellFormed ctx visible) (FirstDefect ctx visible) args e) :
      FirstDefect ctx visible (.call name args) e
  | unary {op : UnaryOp} {operand : Expr} {e : LoweringError}
      (hoperand : FirstDefect ctx visible operand e) :
      FirstDefect ctx visible (.unary op operand) e
  | left {op : BinaryOp} {left right : Expr} {e : LoweringError}
      (hleft : FirstDefect ctx visible left e) :
      FirstDefect ctx visible (.binary op left right) e
  | right {op : BinaryOp} {left right : Expr} {e : LoweringError}
      (hleft : left.WellFormed ctx visible) (hright : FirstDefect ctx visible right e) :
      FirstDefect ctx visible (.binary op left right) e
  | group {inner : Expr} {e : LoweringError} (hinner : FirstDefect ctx visible inner e) :
      FirstDefect ctx visible (.group inner) e

mutual

def Expr.newTypes : Expr → List String
  | .new type => [type]
  | .call _ args => Expr.newTypesAll args
  | .unary _ e => e.newTypes
  | .binary _ left right => left.newTypes ++ right.newTypes
  | .group e => e.newTypes
  | .literal _ | .path _ => []

def Expr.newTypesAll : List Expr → List String
  | [] => []
  | e :: rest => e.newTypes ++ Expr.newTypesAll rest

end

/-- Constructing an object of a type constructs one of another type, for one of its fields. -/
def Constructs (table : TypeTable) (types : List TypeDecl) (type inner : String) : Prop :=
  ∃ decl, Declares table types type decl ∧
    inner ∈ Expr.newTypesAll (decl.fields.map VarDecl.init)

/-- No record type constructs itself, directly or through others. -/
def Acyclic (table : TypeTable) (types : List TypeDecl) : Prop :=
  ∀ type, ¬Relation.TransGen (Constructs table types) type type

/-! ## Statements -/

/-- The names that are visible after a statement. -/
def Stmt.visibleAfter (visible : List String) : Stmt → List String
  | .declare decl => decl.name :: visible
  | _ => visible

mutual

/-- A statement is well-formed where the given names are visible. -/
def Stmt.WellFormed (ctx : Context) (visible : List String) : Stmt → Prop
  | .declare decl => decl.init.WellFormed ctx visible
  | .assign [] _ => False
  | .assign (name :: _) value => value.WellFormed ctx visible ∧ name ∈ visible
  | .ifChain chain => Chain.WellFormed ctx visible chain
  | .whileLoop cond body => cond.WellFormed ctx visible ∧ Stmt.AllWellFormed ctx visible body
  | .forLoop var start _ stop body =>
    -- The variable is visible from the bound on.
    start.WellFormed ctx visible ∧ stop.WellFormed ctx (var :: visible) ∧
      Stmt.AllWellFormed ctx (var :: visible) body
  | .ret none => True
  | .ret (some e) => e.WellFormed ctx visible
  | .delete name => name ∈ visible
  | .call name args => (Expr.call name args).WellFormed ctx visible

/-- Statements that follow each other are well-formed: each sees what those before it declare. -/
def Stmt.AllWellFormed (ctx : Context) (visible : List String) : List Stmt → Prop
  | [] => True
  | s :: rest => s.WellFormed ctx visible ∧ Stmt.AllWellFormed ctx (s.visibleAfter visible) rest

def Chain.WellFormed (ctx : Context) (visible : List String) : Chain → Prop
  | .done => True
  | .otherwise body => Stmt.AllWellFormed ctx visible body
  | .branch cond body rest =>
    cond.WellFormed ctx visible ∧ Stmt.AllWellFormed ctx visible body ∧
      Chain.WellFormed ctx visible rest

end

mutual

def Stmt.FirstDefect (ctx : Context) (visible : List String) (e : LoweringError) : Stmt → Prop
  | .declare decl => decl.init.FirstDefect ctx visible e
  | .assign [] _ => e = .emptyPath ctx.function
  | .assign (name :: _) value =>
    value.FirstDefect ctx visible e ∨
      value.WellFormed ctx visible ∧ name ∉ visible ∧ e = .unknownVariable name ctx.function
  | .ifChain chain => Chain.FirstDefect ctx visible e chain
  | .whileLoop cond body =>
    cond.FirstDefect ctx visible e ∨
      cond.WellFormed ctx visible ∧ Stmt.AllFirstDefect ctx visible e body
  | .forLoop var start _ stop body =>
    start.FirstDefect ctx visible e ∨
      start.WellFormed ctx visible ∧ (stop.FirstDefect ctx (var :: visible) e ∨
        stop.WellFormed ctx (var :: visible) ∧ Stmt.AllFirstDefect ctx (var :: visible) e body)
  | .ret none => False
  | .ret (some value) => value.FirstDefect ctx visible e
  | .delete name => name ∉ visible ∧ e = .unknownVariable name ctx.function
  | .call name args => (Expr.call name args).FirstDefect ctx visible e

def Stmt.AllFirstDefect (ctx : Context) (visible : List String) (e : LoweringError) :
    List Stmt → Prop
  | [] => False
  | s :: rest =>
    s.FirstDefect ctx visible e ∨
      s.WellFormed ctx visible ∧ Stmt.AllFirstDefect ctx (s.visibleAfter visible) e rest

def Chain.FirstDefect (ctx : Context) (visible : List String) (e : LoweringError) : Chain → Prop
  | .done => False
  | .otherwise body => Stmt.AllFirstDefect ctx visible e body
  | .branch cond body rest =>
    cond.FirstDefect ctx visible e ∨
      cond.WellFormed ctx visible ∧ (Stmt.AllFirstDefect ctx visible e body ∨
        Stmt.AllWellFormed ctx visible body ∧ Chain.FirstDefect ctx visible e rest)

end

/-! ## Programs -/

/-- A function is well-formed: its body is, where its parameters are visible. -/
def FunDecl.WellFormed (table : TypeTable) (types : List TypeDecl) (f : FunDecl) : Prop :=
  Stmt.AllWellFormed ⟨table, types, f.name⟩ (f.params.map Param.name) f.body

def FunDecl.FirstDefect (table : TypeTable) (types : List TypeDecl) (f : FunDecl)
    (e : LoweringError) : Prop :=
  Stmt.AllFirstDefect ⟨table, types, f.name⟩ (f.params.map Param.name) e f.body

/-- A program is well-formed: its functions have different names, and each is well-formed. -/
def Program.WellFormed (table : TypeTable) (p : Program) : Prop :=
  (p.functions.map FunDecl.name).Nodup ∧ ∀ f ∈ p.functions, f.WellFormed table p.types

/-- The first thing that is wrong with functions that are declared after others of the names `seen`:
a name that occurs again is noticed before the body of its function. -/
def FunDecl.AllFirstDefect (table : TypeTable) (types : List TypeDecl) (seen : List String)
    (e : LoweringError) : List FunDecl → Prop
  | [] => False
  | f :: rest =>
    f.name ∈ seen ∧ e = .duplicateFunction f.name ∨
      f.name ∉ seen ∧ (f.FirstDefect table types e ∨
        f.WellFormed table types ∧ FunDecl.AllFirstDefect table types (f.name :: seen) e rest)

def Program.FirstDefect (table : TypeTable) (p : Program) (e : LoweringError) : Prop :=
  FunDecl.AllFirstDefect table p.types [] e p.functions

end RecordMachine
