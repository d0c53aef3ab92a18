import RecordMachine.Tree.Basic

/-!
# Conditions on all expressions of a tree

`Program.all p` says that every expression of a program satisfies `p`: those that stand inside
others, those of statements, and the initial values of variables and fields. The target of an
assignment counts as the path that it is, and a call that is a statement as the call.
-/

namespace RecordMachine

mutual

/-- Whether an expression and all those inside it satisfy `p`. -/
def Expr.all (p : Expr → Bool) : Expr → Bool
  | .literal l => p (.literal l)
  | .path names => p (.path names)
  | .new type => p (.new type)
  | .call name args => p (.call name args) && Expr.allIn p args
  | .unary op e => p (.unary op e) && Expr.all p e
  | .binary op left right => p (.binary op left right) && Expr.all p left && Expr.all p right
  | .group e => p (.group e) && Expr.all p e

/-- Whether some expressions and all those inside them satisfy `p`. -/
def Expr.allIn (p : Expr → Bool) : List Expr → Bool
  | [] => true
  | e :: rest => Expr.all p e && Expr.allIn p rest

end

mutual

def Stmt.all (p : Expr → Bool) : Stmt → Bool
  | .declare decl => decl.init.all p
  | .assign target value => Expr.all p (.path target) && value.all p
  | .ifChain chain => Chain.all p chain
  | .whileLoop cond body => cond.all p && Stmt.allIn p body
  | .forLoop _ start _ stop body => start.all p && stop.all p && Stmt.allIn p body
  | .ret none => true
  | .ret (some value) => value.all p
  | .delete _ => true
  | .call name args => Expr.all p (.call name args)

def Stmt.allIn (p : Expr → Bool) : List Stmt → Bool
  | [] => true
  | s :: rest => Stmt.all p s && Stmt.allIn p rest

def Chain.all (p : Expr → Bool) : Chain → Bool
  | .done => true
  | .otherwise body => Stmt.allIn p body
  | .branch cond body rest => cond.all p && Stmt.allIn p body && Chain.all p rest

end

def TypeDecl.all (p : Expr → Bool) (d : TypeDecl) : Bool := d.fields.all fun f => f.init.all p

def Program.all (p : Expr → Bool) (program : Program) : Bool :=
  program.types.all (TypeDecl.all p) && program.functions.all fun f => Stmt.allIn p f.body

/-! ## No condition -/

mutual

/-- What is true of everything is true of every expression. -/
theorem Expr.all_true : ∀ e : Expr, e.all (fun _ => true) = true
  | .literal _ | .path _ | .new _ => rfl
  | .call _ args => by simp [Expr.all, Expr.allIn_true args]
  | .unary _ e => by simp [Expr.all, Expr.all_true e]
  | .binary _ left right => by simp [Expr.all, Expr.all_true left, Expr.all_true right]
  | .group e => by simp [Expr.all, Expr.all_true e]

theorem Expr.allIn_true : ∀ es : List Expr, Expr.allIn (fun _ => true) es = true
  | [] => rfl
  | e :: rest => by simp [Expr.allIn, Expr.all_true e, Expr.allIn_true rest]

end

mutual

theorem Stmt.all_true : ∀ s : Stmt, s.all (fun _ => true) = true
  | .declare decl => Expr.all_true decl.init
  | .assign target value => by simp [Stmt.all, Expr.all_true]
  | .ifChain chain => Chain.all_true chain
  | .whileLoop cond body => by simp [Stmt.all, Expr.all_true, Stmt.allIn_true body]
  | .forLoop _ start _ stop body => by simp [Stmt.all, Expr.all_true, Stmt.allIn_true body]
  | .ret none => rfl
  | .ret (some value) => Expr.all_true value
  | .delete _ => rfl
  | .call name args => Expr.all_true (.call name args)

theorem Stmt.allIn_true : ∀ body : List Stmt, Stmt.allIn (fun _ => true) body = true
  | [] => rfl
  | s :: rest => by simp [Stmt.allIn, Stmt.all_true s, Stmt.allIn_true rest]

theorem Chain.all_true : ∀ chain : Chain, chain.all (fun _ => true) = true
  | .done => rfl
  | .otherwise body => Stmt.allIn_true body
  | .branch cond body rest => by
    simp [Chain.all, Expr.all_true, Stmt.allIn_true body, Chain.all_true rest]

end

theorem Program.all_true (program : Program) : program.all (fun _ => true) = true := by
  simp [Program.all, TypeDecl.all, Expr.all_true, Stmt.allIn_true]

end RecordMachine
