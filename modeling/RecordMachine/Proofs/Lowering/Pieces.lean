import Mathlib.Logic.Relation
import RecordMachine.Proofs.Lowering.Blueprints
import RecordMachine.Proofs.Lowering.Placement
import RecordMachine.Proofs.Lowering.Scoping

/-!
# Pieces of code

The same statement or expression can occur at several places of a program, with other variables
visible and other code. A *piece* is one occurrence: a part of the tree with the index at which its
code stands, the scope at its start, and its code. `Piece.Holds` says how a piece is put together
from smaller ones, one rule for each way in which a part of the tree stands inside another. A
construction holds the initial values of its record type.

Every piece of a function has the shape of its part of the tree, and its code stands at its index in
the blueprint (`FunDecl.Has.lowered`, `FunDecl.Has.placed`). No part of the tree is without a piece
(`FunDecl.exists_has`).
-/

namespace RecordMachine

/-- A part of a program tree. -/
inductive Tree where
  | statements (body : List Stmt)
  | statement (s : Stmt)
  | chain (chain : Chain)
  | expression (e : Expr)

/-- A part of a tree stands directly inside another one. In a construction these are the initial
values of the record type. -/
inductive Tree.Inside (ctx : Context) : Tree → Tree → Prop where
  | statement {body : List Stmt} {s : Stmt} (h : s ∈ body) :
      Inside ctx (.statements body) (.statement s)
  | init (decl : VarDecl) : Inside ctx (.statement (.declare decl)) (.expression decl.init)
  | value (target : List String) (value : Expr) :
      Inside ctx (.statement (.assign target value)) (.expression value)
  | chain (chain : Chain) : Inside ctx (.statement (.ifChain chain)) (.chain chain)
  | whileTest (cond : Expr) (body : List Stmt) :
      Inside ctx (.statement (.whileLoop cond body)) (.expression cond)
  | whileBody (cond : Expr) (body : List Stmt) :
      Inside ctx (.statement (.whileLoop cond body)) (.statements body)
  | forStart (var : String) (start : Expr) (direction : Direction) (stop : Expr)
      (body : List Stmt) :
      Inside ctx (.statement (.forLoop var start direction stop body)) (.expression start)
  | forStop (var : String) (start : Expr) (direction : Direction) (stop : Expr) (body : List Stmt) :
      Inside ctx (.statement (.forLoop var start direction stop body)) (.expression stop)
  | forBody (var : String) (start : Expr) (direction : Direction) (stop : Expr) (body : List Stmt) :
      Inside ctx (.statement (.forLoop var start direction stop body)) (.statements body)
  | returned (e : Expr) : Inside ctx (.statement (.ret (some e))) (.expression e)
  | called (name : String) (args : List Expr) :
      Inside ctx (.statement (.call name args)) (.expression (.call name args))
  | otherwise (body : List Stmt) : Inside ctx (.chain (.otherwise body)) (.statements body)
  | branchTest (cond : Expr) (body : List Stmt) (rest : Chain) :
      Inside ctx (.chain (.branch cond body rest)) (.expression cond)
  | branchBody (cond : Expr) (body : List Stmt) (rest : Chain) :
      Inside ctx (.chain (.branch cond body rest)) (.statements body)
  | branchRest (cond : Expr) (body : List Stmt) (rest : Chain) :
      Inside ctx (.chain (.branch cond body rest)) (.chain rest)
  | field {type : String} {names : List String} {fields : List VarDecl} {decl : VarDecl}
      (hlayout : ctx.layout type = .ok (names, fields)) (h : decl ∈ fields) :
      Inside ctx (.expression (.new type)) (.expression decl.init)
  | argument {name : String} {args : List Expr} {e : Expr} (h : e ∈ args) :
      Inside ctx (.expression (.call name args)) (.expression e)
  | operand (op : UnaryOp) (e : Expr) : Inside ctx (.expression (.unary op e)) (.expression e)
  | left (op : BinaryOp) (left right : Expr) :
      Inside ctx (.expression (.binary op left right)) (.expression left)
  | right (op : BinaryOp) (left right : Expr) :
      Inside ctx (.expression (.binary op left right)) (.expression right)
  | inner (e : Expr) : Inside ctx (.expression (.group e)) (.expression e)

/-- An occurrence of a part of a tree in lowered code. -/
structure Piece where
  tree : Tree
  /-- The index at which its code stands. -/
  base : Nat
  /-- The variables that are visible at its start. -/
  scope : Scope
  code : Code

/-! ## Code of one among several -/

/-- The code of a statement stands among the code of its neighbours, behind the code of those before
it. Induction on the statements before it. -/
theorem SequenceCode.split {ctx : Context} {before after : List Stmt} {s : Stmt} {base : Nat}
    {scope scope' : Scope} {c : Code}
    (h : SequenceCode ctx base scope (before ++ s :: after) c scope') :
    ∃ c₁ c₂ c₃ mid mid', SequenceCode ctx base scope before c₁ mid ∧
      StmtCode ctx (base + c₁.length) mid s c₂ mid' ∧ c = c₁ ++ (c₂ ++ c₃) := by
  induction before generalizing base scope c with
  | nil =>
    cases h with
    | cons hs hrest => exact ⟨[], _, _, scope, _, .nil, hs, rfl⟩
  | cons t before ih =>
    cases h with
    | @cons _ _ _ _ _ _ first _ ht hrest =>
      obtain ⟨c₁, c₂, c₃, mid, mid', hbefore, hs, rfl⟩ := ih hrest
      rw [Nat.add_assoc, ← List.length_append] at hs
      exact ⟨first ++ c₁, c₂, c₃, mid, mid', .cons ht hbefore, hs, (List.append_assoc _ _ _).symm⟩

/-- The code of an argument stands behind the code of those before it. -/
theorem ArgsCode.split {ctx : Context} {scope : Scope} {before after : List Expr} {e : Expr}
    {c : Code} (h : ArgsCode ctx scope (before ++ e :: after) c) :
    ∃ c₁ c₂ c₃, ArgsCode ctx scope before c₁ ∧ ExprCode ctx scope e c₂ ∧
      c = c₁ ++ (c₂ ++ c₃) := by
  induction before generalizing c with
  | nil =>
    cases h with
    | cons he hrest => exact ⟨[], _, _, .nil, he, rfl⟩
  | cons t before ih =>
    cases h with
    | cons ht hrest =>
      obtain ⟨c₁, c₂, c₃, hbefore, he, rfl⟩ := ih hrest
      exact ⟨_, c₂, c₃, .cons ht hbefore, he, (List.append_assoc _ _ _).symm⟩

/-- The code of an initial value stands behind that of the fields before it and a copy of the
object. -/
theorem FieldsCode.split {ctx : Context} {scope : Scope} {before after : List VarDecl}
    {field : VarDecl} {c : Code} (h : FieldsCode ctx scope (before ++ field :: after) c) :
    ∃ c₁ c₂ c₃, FieldsCode ctx scope before c₁ ∧ ExprCode ctx scope field.init c₂ ∧
      c = c₁ ++ .plain .dup :: (c₂ ++ c₃) := by
  induction before generalizing c with
  | nil =>
    cases h with
    | cons hinit hrest => exact ⟨[], _, _, .nil, hinit, rfl⟩
  | cons t before ih =>
    cases h with
    | cons ht hrest =>
      obtain ⟨c₁, c₂, c₃, hbefore, hinit, rfl⟩ := ih hrest
      refine ⟨_, c₂, c₃, .cons ht hbefore, hinit, ?_⟩
      simp only [List.cons_append, List.append_assoc]

namespace Piece

/-- The code of a piece has the shape of its part of the tree. -/
inductive Lowered (ctx : Context) : Piece → Prop where
  | statements {body : List Stmt} {base : Nat} {scope scope' : Scope} {c : Code}
      (h : SequenceCode ctx base scope body c scope') :
      Lowered ctx ⟨.statements body, base, scope, c⟩
  | statement {s : Stmt} {base : Nat} {scope scope' : Scope} {c : Code}
      (h : StmtCode ctx base scope s c scope') : Lowered ctx ⟨.statement s, base, scope, c⟩
  | chain {landing : Nat} {chain : Chain} {base : Nat} {scope scope' : Scope} {c : Code}
      (h : ChainCode ctx base scope landing chain c scope') :
      Lowered ctx ⟨.chain chain, base, scope, c⟩
  | expression {e : Expr} {base : Nat} {scope : Scope} {c : Code} (h : ExprCode ctx scope e c) :
      Lowered ctx ⟨.expression e, base, scope, c⟩

/-- A piece stands directly inside another one. -/
inductive Holds (ctx : Context) : Piece → Piece → Prop where
  | statement {before after : List Stmt} {s : Stmt} {base : Nat} {scope mid scope' : Scope}
      {c c₁ c₂ : Code} (hbefore : SequenceCode ctx base scope before c₁ mid)
      (h : StmtCode ctx (base + c₁.length) mid s c scope') :
      Holds ctx ⟨.statements (before ++ s :: after), base, scope, c₁ ++ (c ++ c₂)⟩
        ⟨.statement s, base + c₁.length, mid, c⟩
  | init {decl : VarDecl} {base : Nat} {scope : Scope} {c c₂ : Code}
      (h : ExprCode ctx scope decl.init c) :
      Holds ctx ⟨.statement (.declare decl), base, scope, c ++ c₂⟩
        ⟨.expression decl.init, base, scope, c⟩
  | value {target : List String} {value : Expr} {base : Nat} {scope : Scope} {c c₂ : Code}
      (h : ExprCode ctx scope value c) :
      Holds ctx ⟨.statement (.assign target value), base, scope, c ++ c₂⟩
        ⟨.expression value, base, scope, c⟩
  | chain {chain : Chain} {base : Nat} {scope scope' : Scope} {c : Code}
      (h : ChainCode ctx base scope (base + c.length) chain c scope') :
      Holds ctx ⟨.statement (.ifChain chain), base, scope, c ++ [.plain .nop]⟩
        ⟨.chain chain, base, scope, c⟩
  | whileTest {cond : Expr} {body : List Stmt} {base : Nat} {scope : Scope} {test c : Code}
      (h : ExprCode ctx scope cond test) :
      Holds ctx ⟨.statement (.whileLoop cond body), base, scope, whileCode base test c⟩
        ⟨.expression cond, base, scope, test⟩
  | whileBody {cond : Expr} {body : List Stmt} {base : Nat} {scope scope' : Scope} {test c : Code}
      (htest : ExprCode ctx scope cond test)
      (h : SequenceCode ctx (base + test.length + 1) scope.enter body c scope') :
      Holds ctx ⟨.statement (.whileLoop cond body), base, scope, whileCode base test c⟩
        ⟨.statements body, base + test.length + 1, scope.enter, c⟩
  | forStart {var : String} {start stop : Expr} {direction : Direction} {body : List Stmt}
      {base slot again : Nat} {scope : Scope} {first last c : Code}
      (h : ExprCode ctx scope.enter start first) :
      Holds ctx ⟨.statement (.forLoop var start direction stop body), base, scope,
          forCode direction slot again first last c⟩
        ⟨.expression start, base, scope.enter, first⟩
  | forStop {var : String} {start stop : Expr} {direction : Direction} {body : List Stmt}
      {base slot again : Nat} {scope inner : Scope} {first last c : Code}
      (hcounter : scope.enter.counter var = (slot, inner))
      (hagain : again = base + first.length + 1)
      (h : ExprCode ctx inner stop last) :
      Holds ctx ⟨.statement (.forLoop var start direction stop body), base, scope,
          forCode direction slot again first last c⟩
        ⟨.expression stop, again + 1, inner, last⟩
  | forBody {var : String} {start stop : Expr} {direction : Direction} {body : List Stmt}
      {base slot again : Nat} {scope inner scope' : Scope} {first last c : Code}
      (hcounter : scope.enter.counter var = (slot, inner))
      (hagain : again = base + first.length + 1)
      (h : SequenceCode ctx (again + (last.length + 2) + 1) inner.enter body c scope') :
      Holds ctx ⟨.statement (.forLoop var start direction stop body), base, scope,
          forCode direction slot again first last c⟩
        ⟨.statements body, again + (last.length + 2) + 1, inner.enter, c⟩
  | returned {e : Expr} {base : Nat} {scope : Scope} {c c₂ : Code} (h : ExprCode ctx scope e c) :
      Holds ctx ⟨.statement (.ret (some e)), base, scope, c ++ c₂⟩ ⟨.expression e, base, scope, c⟩
  | called {name : String} {args : List Expr} {base : Nat} {scope : Scope} {c c₂ : Code}
      (h : ExprCode ctx scope (.call name args) c) :
      Holds ctx ⟨.statement (.call name args), base, scope, c ++ c₂⟩
        ⟨.expression (.call name args), base, scope, c⟩
  | otherwise {body : List Stmt} {base : Nat} {scope scope' : Scope} {c : Code}
      (h : SequenceCode ctx base scope.enter body c scope') :
      Holds ctx ⟨.chain (.otherwise body), base, scope, c⟩
        ⟨.statements body, base, scope.enter, c⟩
  | branchTest {cond : Expr} {body : List Stmt} {rest : Chain} {base : Nat} {scope : Scope}
      {test c₂ : Code} (h : ExprCode ctx scope cond test) :
      Holds ctx ⟨.chain (.branch cond body rest), base, scope, test ++ c₂⟩
        ⟨.expression cond, base, scope, test⟩
  | branchBody {cond : Expr} {body : List Stmt} {rest : Chain} {next base : Nat}
      {scope scope' : Scope} {test c c₂ : Code} (htest : ExprCode ctx scope cond test)
      (h : SequenceCode ctx (base + test.length + 1) scope.enter body c scope') :
      Holds ctx ⟨.chain (.branch cond body rest), base, scope,
          test ++ .jumpIfFalse next :: (c ++ c₂)⟩
        ⟨.statements body, base + test.length + 1, scope.enter, c⟩
  | branchRest {cond : Expr} {body : List Stmt} {rest : Chain} {landing next base : Nat}
      {scope mid scope' : Scope} {test c others : Code} (htest : ExprCode ctx scope cond test)
      (hbody : SequenceCode ctx (base + test.length + 1) scope.enter body c mid)
      (hnext : next = base + test.length + 1 + c.length + (rest.exitCode landing).length)
      (h : ChainCode ctx next mid.leave landing rest others scope') :
      Holds ctx ⟨.chain (.branch cond body rest), base, scope,
          test ++ .jumpIfFalse next :: (c ++ rest.exitCode landing ++ others)⟩
        ⟨.chain rest, next, mid.leave, others⟩
  | field {type : String} {names : List String} {before after : List VarDecl} {decl : VarDecl}
      {base : Nat} {scope : Scope} {c c₁ c₂ : Code}
      (hlayout : ctx.layout type = .ok (names, before ++ decl :: after))
      (hbefore : FieldsCode ctx scope before c₁) (h : ExprCode ctx scope decl.init c) :
      Holds ctx ⟨.expression (.new type), base, scope,
          .alloc names :: (c₁ ++ .plain .dup :: (c ++ c₂))⟩
        ⟨.expression decl.init, base + 1 + c₁.length + 1, scope, c⟩
  | argument {name : String} {before after : List Expr} {e : Expr} {base : Nat} {scope : Scope}
      {c c₁ c₂ : Code} (hbefore : ArgsCode ctx scope before c₁) (h : ExprCode ctx scope e c) :
      Holds ctx ⟨.expression (.call name (before ++ e :: after)), base, scope, c₁ ++ (c ++ c₂)⟩
        ⟨.expression e, base + c₁.length, scope, c⟩
  | operand {op : UnaryOp} {e : Expr} {base : Nat} {scope : Scope} {c c₂ : Code}
      (h : ExprCode ctx scope e c) :
      Holds ctx ⟨.expression (.unary op e), base, scope, c ++ c₂⟩ ⟨.expression e, base, scope, c⟩
  | left {op : BinaryOp} {left right : Expr} {base : Nat} {scope : Scope} {c c₂ : Code}
      (h : ExprCode ctx scope left c) :
      Holds ctx ⟨.expression (.binary op left right), base, scope, c ++ c₂⟩
        ⟨.expression left, base, scope, c⟩
  | right {op : BinaryOp} {left right : Expr} {base : Nat} {scope : Scope} {c c₁ c₂ : Code}
      (hleft : ExprCode ctx scope left c₁) (h : ExprCode ctx scope right c) :
      Holds ctx ⟨.expression (.binary op left right), base, scope, c₁ ++ (c ++ c₂)⟩
        ⟨.expression right, base + c₁.length, scope, c⟩
  | inner {e : Expr} {base : Nat} {scope : Scope} {c : Code} (h : ExprCode ctx scope e c) :
      Holds ctx ⟨.expression (.group e), base, scope, c⟩ ⟨.expression e, base, scope, c⟩

variable {ctx : Context} {outer inner : Piece}

/-- A piece inside another one has the shape of its part of the tree. -/
theorem Holds.lowered (h : Holds ctx outer inner) : inner.Lowered ctx := by
  cases h with
  | statement _ h => exact .statement h
  | chain h => exact .chain h
  | whileBody _ h => exact .statements h
  | forBody _ _ h => exact .statements h
  | otherwise h => exact .statements h
  | branchBody _ h => exact .statements h
  | branchRest _ _ _ h => exact .chain h
  | init h | value h | whileTest h | forStart h | forStop _ _ h | returned h | called h
  | branchTest h | field _ _ h | argument _ h | operand h | left h | right _ h | inner h =>
    exact .expression h

/-- A piece inside another one stands where it says, if the other one does. -/
theorem Holds.placed {code : Array Instruction} (h : Holds ctx outer inner)
    (hplaced : Placed code outer.base outer.code) : Placed code inner.base inner.code := by
  -- A piece follows those before it, so its place is found by leaving them out one after the other.
  cases h with
  | statement | argument | right => exact hplaced.append.2.append.1
  | init | value | chain | whileTest | forStart | returned | called | branchTest | operand | left =>
    exact hplaced.append.1
  | otherwise | inner => exact hplaced
  | whileBody | branchBody => exact hplaced.append.2.tail.append.1
  | forStop _ hagain =>
    rw [hagain]
    exact hplaced.append.2.tail.append.1.tail.append.1
  | forBody _ hagain =>
    have hbody := hplaced.append.2.tail.append.2.tail.append.1.append.1
    rw [Direction.length_testCode] at hbody
    rw [hagain]
    exact hbody
  | branchRest _ _ hnext =>
    have hrest := hplaced.append.2.tail.append.2
    rw [List.length_append, ← Nat.add_assoc] at hrest
    rw [hnext]
    exact hrest
  | field => exact hplaced.tail.append.2.tail.append.1

/-- Inside a piece with orderly variables there are only such pieces. -/
theorem Holds.orderly (h : Holds ctx outer inner) (hord : outer.scope.Orderly) :
    inner.scope.Orderly := by
  cases h with
  | statement hbefore _ => exact (hbefore.grows hord).2
  | whileBody | forStart | otherwise | branchBody => exact hord.enter
  | forStop hcounter => exact hord.enter.counter hcounter
  | forBody hcounter => exact (hord.enter.counter hcounter).enter
  | branchRest _ hbody _ _ => exact .of_block hord (hbody.grows hord.enter).1
  | init | value | chain | whileTest | returned | called | branchTest | field | argument | operand
  | left | right | inner => exact hord

/-- A piece at any depth stands where it says, if the outermost one does. -/
theorem Holds.placed_trans {code : Array Instruction}
    (h : Relation.ReflTransGen (Holds ctx) outer inner)
    (hplaced : Placed code outer.base outer.code) : Placed code inner.base inner.code := by
  induction h with
  | refl => exact hplaced
  | tail _ hlast ih => exact hlast.placed ih

/-- A piece at any depth has the shape of its part of the tree. -/
theorem Holds.lowered_trans (h : Relation.ReflTransGen (Holds ctx) outer inner)
    (hlowered : outer.Lowered ctx) : inner.Lowered ctx := by
  induction h with
  | refl => exact hlowered
  | tail _ hlast _ => exact hlast.lowered

/-- A piece at any depth has orderly variables. -/
theorem Holds.orderly_trans (h : Relation.ReflTransGen (Holds ctx) outer inner)
    (hord : outer.scope.Orderly) : inner.scope.Orderly := by
  induction h with
  | refl => exact hord
  | tail _ hlast ih => exact hlast.orderly ih

/-! ## Every part has a piece -/

/-- What stands inside a part of the tree has a piece inside its piece. -/
theorem Lowered.exists_holds {t : Tree} (h : outer.Lowered ctx)
    (hinside : outer.tree.Inside ctx t) :
    ∃ inner, Holds ctx outer inner ∧ inner.tree = t := by
  cases h with
  | statements h =>
    cases hinside with
    | statement hmem =>
      obtain ⟨before, after, rfl⟩ := List.append_of_mem hmem
      obtain ⟨c₁, c₂, c₃, mid, mid', hbefore, hs, rfl⟩ := h.split
      exact ⟨_, .statement hbefore hs, rfl⟩
  | statement h =>
    cases h with
    | declare hinit =>
      cases hinside
      exact ⟨_, .init hinit, rfl⟩
    | assign hvalue _ =>
      cases hinside
      exact ⟨_, .value hvalue, rfl⟩
    | ifChain hchain =>
      cases hinside
      exact ⟨_, .chain hchain, rfl⟩
    | whileLoop hcond hbody =>
      cases hinside with
      | whileTest => exact ⟨_, .whileTest hcond, rfl⟩
      | whileBody => exact ⟨_, .whileBody hcond hbody, rfl⟩
    | forLoop hstart hcounter hstop hagain hbody =>
      cases hinside with
      | forStart => exact ⟨_, .forStart hstart, rfl⟩
      | forStop => exact ⟨_, .forStop hcounter hagain hstop, rfl⟩
      | forBody => exact ⟨_, .forBody hcounter hagain hbody, rfl⟩
    | retNil => cases hinside
    | ret he =>
      cases hinside
      exact ⟨_, .returned he, rfl⟩
    | delete _ => cases hinside
    | call hcall =>
      cases hinside
      exact ⟨_, .called hcall, rfl⟩
  | chain h =>
    cases h with
    | done => cases hinside
    | otherwise hbody =>
      cases hinside
      exact ⟨_, .otherwise hbody, rfl⟩
    | branch hcond hbody hnext hrest =>
      cases hinside with
      | branchTest => exact ⟨_, .branchTest hcond, rfl⟩
      | branchBody =>
        rw [List.append_assoc]
        exact ⟨_, .branchBody hcond hbody, rfl⟩
      | branchRest => exact ⟨_, .branchRest hcond hbody hnext hrest, rfl⟩
  | expression h =>
    cases h with
    | literal _ => cases hinside
    | path _ => cases hinside
    | new hlayout hinits =>
      cases hinside with
      | field hlayout' hmem =>
        -- Both layouts are the one that the context has.
        cases hlayout.symm.trans hlayout'
        obtain ⟨before, after, rfl⟩ := List.append_of_mem hmem
        obtain ⟨c₁, c₂, c₃, hbefore, hinit, rfl⟩ := hinits.split
        exact ⟨_, .field hlayout hbefore hinit, rfl⟩
    | call _ hargs =>
      cases hinside with
      | argument hmem =>
        obtain ⟨before, after, rfl⟩ := List.append_of_mem hmem
        obtain ⟨c₁, c₂, c₃, hbefore, he, rfl⟩ := hargs.split
        rw [List.append_assoc, List.append_assoc]
        exact ⟨_, .argument hbefore he, rfl⟩
    | unary he =>
      cases hinside
      exact ⟨_, .operand he, rfl⟩
    | binary hleft hright =>
      rw [List.append_assoc]
      cases hinside with
      | left => exact ⟨_, .left hleft, rfl⟩
      | right => exact ⟨_, .right hleft hright, rfl⟩
    | group he =>
      cases hinside
      exact ⟨_, .inner he, rfl⟩

/-- What stands in a part of the tree at any depth has a piece in its piece. -/
theorem Lowered.exists_holds_trans {t : Tree} (h : outer.Lowered ctx)
    (hinside : Relation.ReflTransGen (Tree.Inside ctx) outer.tree t) :
    ∃ inner, Relation.ReflTransGen (Holds ctx) outer inner ∧ inner.tree = t := by
  induction hinside with
  | refl => exact ⟨outer, .refl, rfl⟩
  | tail _ hlast ih =>
    obtain ⟨mid, hparts, rfl⟩ := ih
    obtain ⟨inner, hholds, htree⟩ := (Holds.lowered_trans hparts h).exists_holds hlast
    exact ⟨inner, hparts.tail hholds, htree⟩

end Piece

/-! ## Pieces of a function -/

def FunDecl.Has (f : FunDecl) (table : TypeTable) (types : List TypeDecl) (piece : Piece) : Prop :=
  ∃ c scope', Stmt.sequenceCode ⟨table, types, f.name⟩ 0 (Scope.ofParams (f.params.map Param.name))
      f.body = .ok (c, scope') ∧
    Relation.ReflTransGen (Piece.Holds ⟨table, types, f.name⟩)
      ⟨.statements f.body, 0, Scope.ofParams (f.params.map Param.name), c⟩ piece

namespace FunDecl.Has

variable {f : FunDecl} {table : TypeTable} {types : List TypeDecl} {piece : Piece}

/-- A piece of a function has the shape of its part of the tree. -/
theorem lowered (h : f.Has table types piece) : piece.Lowered ⟨table, types, f.name⟩ := by
  obtain ⟨c, scope', hbody, hparts⟩ := h
  exact Piece.Holds.lowered_trans hparts (.statements (Stmt.sequence_shape hbody))

/-- The variables at the start of a piece of a function are orderly. -/
theorem orderly (h : f.Has table types piece) : piece.scope.Orderly := by
  obtain ⟨c, scope', _, hparts⟩ := h
  exact Piece.Holds.orderly_trans hparts (Scope.orderly_ofParams _)

/-- The code of a piece stands at its index in the blueprint of the function. -/
theorem placed (h : f.Has table types piece) {b : Blueprint} (hb : f.lower table types = .ok b) :
    Placed b.code piece.base piece.code := by
  obtain ⟨c, scope', hbody, hparts⟩ := h
  have hlower : f.lower table types
      = .ok ⟨f.name, f.params.length, (c ++ closingCode f.body).toArray⟩ := by
    unfold FunDecl.lower
    exact bind_eq_ok.2 ⟨_, hbody, rfl⟩
  rw [hlower] at hb
  cases hb
  -- The code of the body and what closes it are the whole code of the blueprint.
  have hwhole : Placed (c ++ closingCode f.body).toArray 0 (c ++ closingCode f.body) := by
    intro j i hi
    rwa [Nat.zero_add, List.getElem?_toArray]
  exact Piece.Holds.placed_trans hparts hwhole.append.1

end FunDecl.Has

/-- Every part of the tree of a function has a piece, if the function can be lowered. -/
theorem FunDecl.exists_has {f : FunDecl} {table : TypeTable} {types : List TypeDecl} {b : Blueprint}
    (hb : f.lower table types = .ok b) {t : Tree}
    (ht : Relation.ReflTransGen (Tree.Inside ⟨table, types, f.name⟩) (.statements f.body) t) :
    ∃ base scope c, f.Has table types ⟨t, base, scope, c⟩ := by
  unfold FunDecl.lower at hb
  obtain ⟨⟨c, scope'⟩, hbody, _⟩ := bind_eq_ok.1 hb
  have hlowered : Piece.Lowered ⟨table, types, f.name⟩
      ⟨.statements f.body, 0, Scope.ofParams (f.params.map Param.name), c⟩ :=
    .statements (Stmt.sequence_shape hbody)
  obtain ⟨⟨t, base, scope, code⟩, hparts, rfl⟩ := hlowered.exists_holds_trans ht
  exact ⟨base, scope, code, c, scope', hbody, hparts⟩

/-- In a compiled program a piece stands in the blueprint of its function. -/
theorem Program.placed_of_has {p : Program} {table : TypeTable} {bc : Bytecode}
    (h : p.lower table = .ok bc) {f : FunDecl} (hf : f ∈ p.functions) {piece : Piece}
    (hpiece : f.Has table p.types piece) :
    ∃ b, bc.get? f.name = some b ∧ Placed b.code piece.base piece.code := by
  obtain ⟨b, hb, hfound⟩ := lower_of_mem h hf
  exact ⟨b, hfound, hpiece.placed hb⟩

end RecordMachine
