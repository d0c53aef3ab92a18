import RecordMachine.Lowering.Program
import RecordMachine.Proofs.Refusal

/-!
# The shape of lowered code

Lowering is a function that may refuse; a proof about code that it produced wants to know how that
code is put together and nothing about refusals. `ExprCode` and `StmtCode` say so, one rule for each
form of the tree:

* `ExprCode ctx scope e c` — `c` is the code of `e` where `scope` is visible. A construction carries
  the shape of all its initial values, so that an induction on the shape never meets the bound on
  nested constructions (`constructCode`).
* `StmtCode ctx base scope s c scope'` — `c` is the code of `s` for the index `base`, and `scope'`
  is visible after it.
* `ChainCode ctx base scope landing chain c scope'` — the branches of a conditional statement, where
  `landing` is the index at which they meet again. It is a parameter, so that the same shape with
  another landing describes branches whose exits are still open.

`Expr.shape` and `Stmt.sequence_shape` show that whatever lowering accepts has this shape.
-/

namespace RecordMachine

/-! ## Expressions -/

mutual

/-- `c` is the code of an expression where `scope` is visible. -/
inductive ExprCode (ctx : Context) (scope : Scope) : Expr → Code → Prop where
  | literal (l : Literal) : ExprCode ctx scope (.literal l) [.push l.value]
  | path {base : String} {fields : List String} {slot : Nat}
      (hslot : scope.resolve? base = some slot) :
      ExprCode ctx scope (.path (base :: fields)) (.load slot :: fields.map .getField)
  | new {type : String} {names : List String} {fields : List VarDecl} {inits : Code}
      (hlayout : ctx.layout type = .ok (names, fields))
      (hinits : FieldsCode ctx scope fields inits) :
      ExprCode ctx scope (.new type) (.alloc names :: inits)
  | call {name : String} {args : List Expr} {callee operands : Code}
      (hcallee : ctx.calleeCode name args.length = .ok callee)
      (hargs : ArgsCode ctx scope args operands) :
      ExprCode ctx scope (.call name args) (operands ++ callee)
  | unary {op : UnaryOp} {e : Expr} {c : Code} (he : ExprCode ctx scope e c) :
      ExprCode ctx scope (.unary op e) (c ++ [.plain op.opcode])
  | binary {op : BinaryOp} {left right : Expr} {cl cr : Code}
      (hleft : ExprCode ctx scope left cl) (hright : ExprCode ctx scope right cr) :
      ExprCode ctx scope (.binary op left right) (cl ++ cr ++ [.plain op.opcode])
  | group {e : Expr} {c : Code} (he : ExprCode ctx scope e c) : ExprCode ctx scope (.group e) c

/-- `c` is the code of several expressions, one after the other. -/
inductive ArgsCode (ctx : Context) (scope : Scope) : List Expr → Code → Prop where
  | nil : ArgsCode ctx scope [] []
  | cons {e : Expr} {rest : List Expr} {first c : Code}
      (he : ExprCode ctx scope e first) (hrest : ArgsCode ctx scope rest c) :
      ArgsCode ctx scope (e :: rest) (first ++ c)

/-- `c` is the code that gives the fields of the object on top of the stack their initial values. -/
inductive FieldsCode (ctx : Context) (scope : Scope) : List VarDecl → Code → Prop where
  | nil : FieldsCode ctx scope [] []
  | cons {field : VarDecl} {rest : List VarDecl} {init c : Code}
      (hinit : ExprCode ctx scope field.init init) (hrest : FieldsCode ctx scope rest c) :
      FieldsCode ctx scope (field :: rest)
        (.plain .dup :: (init ++ .setField field.name :: c))

end

namespace Context

/-- A slot that the context finds is the one that the name stands for. -/
theorem resolve?_of_slot {ctx : Context} {scope : Scope} {name : String} {slot : Nat}
    (h : ctx.slot scope name = .ok slot) : scope.resolve? name = some slot := by
  unfold Context.slot at h
  split at h
  · next found heq =>
    rw [heq, Except.ok.inj h]
  · cases h

/-- What follows the arguments of a call is the code of a built-in function with that many
parameters, or else a call of a function that the table lists with that many. -/
theorem calleeCode_cases {ctx : Context} {name : String} {count : Nat} {callee : Code}
    (h : ctx.calleeCode name count = .ok callee) :
    (∃ b, Builtin.find? name = some b ∧ b.arity = count ∧ callee = b.code) ∨
      (Builtin.find? name = none ∧ ctx.table.arity? name = some count ∧
        callee = [.call name]) := by
  unfold calleeCode at h
  split at h
  · -- A built-in function hides a function of the program that has its name.
    next b hb =>
    obtain ⟨_, harity, hcode⟩ := bind_eq_ok.1 h
    left
    refine ⟨b, hb, ?_, (Except.ok.inj hcode).symm⟩
    unfold checkArity at harity
    split at harity
    · assumption
    · cases harity
  · next hb =>
    split at h
    · cases h
    · next arity hfound =>
      obtain ⟨_, harity, hcode⟩ := bind_eq_ok.1 h
      right
      refine ⟨hb, ?_, (Except.ok.inj hcode).symm⟩
      unfold checkArity at harity
      split at harity
      · next heq => rw [hfound, heq]
      · cases harity

/-- The fields of a construction are those of the last declaration of its type, and the table has
their names. -/
theorem layout_cases {ctx : Context} {type : String} {names : List String} {fields : List VarDecl}
    (h : ctx.layout type = .ok (names, fields)) :
    ∃ decl, ctx.table.fields? type = some names ∧ ctx.decl? type = some decl ∧
      decl.fields = fields := by
  unfold layout at h
  split at h
  · next names' decl hnames hdecl =>
    have heq := Except.ok.inj h
    rw [Prod.mk.injEq] at heq
    exact ⟨decl, by rw [hnames, heq.1], hdecl, heq.2⟩
  · cases h

end Context

section Expressions

variable {ctx : Context} {scope : Scope} {construct : String → Except LoweringError Code}

mutual

/-- Code of an expression has the shape of one, if the code of every construction has. -/
theorem Expr.shape_of_codeWith
    (hnew : ∀ type c, construct type = .ok c → ExprCode ctx scope (.new type) c) :
    ∀ {e : Expr} {c : Code}, e.codeWith ctx scope construct = .ok c → ExprCode ctx scope e c
  | .literal l, c, h => by
    rw [Expr.codeWith] at h
    cases h
    exact .literal l
  | .path [], c, h => by
    rw [Expr.codeWith] at h
    cases h
  | .path (base :: fields), c, h => by
    rw [Expr.codeWith] at h
    obtain ⟨slot, hslot, hc⟩ := bind_eq_ok.1 h
    cases hc
    exact .path (Context.resolve?_of_slot hslot)
  | .new type, c, h => by
    rw [Expr.codeWith] at h
    exact hnew type c h
  | .call name args, c, h => by
    rw [Expr.codeWith] at h
    -- The callee is looked up before the arguments are lowered, although its code stands behind
    -- them.
    obtain ⟨callee, hcallee, h⟩ := bind_eq_ok.1 h
    obtain ⟨operands, hargs, hc⟩ := bind_eq_ok.1 h
    cases hc
    exact .call hcallee (Expr.shape_of_codeAllWith hnew hargs)
  | .unary op e, c, h => by
    rw [Expr.codeWith] at h
    obtain ⟨operand, he, hc⟩ := bind_eq_ok.1 h
    cases hc
    exact .unary (Expr.shape_of_codeWith hnew he)
  | .binary op left right, c, h => by
    rw [Expr.codeWith] at h
    obtain ⟨cl, hleft, h⟩ := bind_eq_ok.1 h
    obtain ⟨cr, hright, hc⟩ := bind_eq_ok.1 h
    cases hc
    exact .binary (Expr.shape_of_codeWith hnew hleft) (Expr.shape_of_codeWith hnew hright)
  | .group e, c, h => by
    rw [Expr.codeWith] at h
    exact .group (Expr.shape_of_codeWith hnew h)

/-- Code of arguments has the shape of arguments, if the code of every construction has its
shape. -/
theorem Expr.shape_of_codeAllWith
    (hnew : ∀ type c, construct type = .ok c → ExprCode ctx scope (.new type) c) :
    ∀ {es : List Expr} {c : Code}, Expr.codeAllWith ctx scope construct es = .ok c →
      ArgsCode ctx scope es c
  | [], c, h => by
    rw [Expr.codeAllWith] at h
    cases h
    exact .nil
  | e :: rest, c, h => by
    rw [Expr.codeAllWith] at h
    obtain ⟨first, he, h⟩ := bind_eq_ok.1 h
    obtain ⟨others, hrest, hc⟩ := bind_eq_ok.1 h
    cases hc
    exact .cons (Expr.shape_of_codeWith hnew he) (Expr.shape_of_codeAllWith hnew hrest)

end

/-- Code of initial values has their shape, if the code of every one has. Induction on the
fields. -/
theorem shape_of_fieldsCode {lower : Expr → Except LoweringError Code}
    (hlower : ∀ e c, lower e = .ok c → ExprCode ctx scope e c) {fields : List VarDecl} {c : Code}
    (h : fieldsCode lower fields = .ok c) : FieldsCode ctx scope fields c := by
  induction fields generalizing c with
  | nil =>
    cases h
    exact .nil
  | cons field rest ih =>
    rw [fieldsCode] at h
    obtain ⟨init, hinit, h⟩ := bind_eq_ok.1 h
    obtain ⟨others, hrest, hc⟩ := bind_eq_ok.1 h
    cases hc
    exact .cons (hlower _ _ hinit) (ih hrest)

/-- The code of a construction has its shape, whatever the bound on nested constructions is. -/
theorem shape_of_constructCode (depth : Nat) :
    ∀ (type : String) (c : Code), constructCode ctx scope depth type = .ok c →
      ExprCode ctx scope (.new type) c := by
  induction depth with
  | zero =>
    intro type c h
    -- Nested too deep: there is no code.
    rw [constructCode] at h
    obtain ⟨_, _, h⟩ := bind_eq_ok.1 h
    cases h
  | succ depth ih =>
    intro type c h
    rw [constructCode] at h
    obtain ⟨⟨names, fields⟩, hlayout, h⟩ := bind_eq_ok.1 h
    obtain ⟨inits, hinits, hc⟩ := bind_eq_ok.1 h
    cases hc
    exact .new hlayout (shape_of_fieldsCode (fun _ _ he => Expr.shape_of_codeWith ih he) hinits)

/-- The code of an expression has its shape. -/
theorem Expr.shape {e : Expr} {c : Code} (h : e.code ctx scope = .ok c) : ExprCode ctx scope e c :=
  Expr.shape_of_codeWith (shape_of_constructCode _) h

end Expressions

/-! ## Statements -/

/-- The slot of the variable that a counting loop uses, and the scope in which it runs: a visible
variable of that name is used, otherwise the loop declares its own. -/
def Scope.counter (s : Scope) (var : String) : Nat × Scope :=
  match s.resolve? var with
  | some slot => (slot, s)
  | none => (s.nextSlot, s.declare var)

/-- How a branch is left that `rest` follows: by a jump over it, if there is any. -/
def Chain.exitCode (rest : Chain) (landing : Nat) : Code :=
  if rest.isDone then [] else [.jump landing]

/-- The instructions that move the variable of a counting loop. -/
def Direction.moveCode (direction : Direction) (slot : Nat) : Code :=
  [.load slot, .push (.int 1), .plain direction.advance, .store slot]

/-- The instructions that move the variable of a counting loop and start the next round. -/
def Direction.advanceCode (direction : Direction) (slot again : Nat) : Code :=
  direction.moveCode slot ++ [.jump again]

/-- The code of a loop with a condition, for the index `base`. -/
def whileCode (base : Nat) (test body : Code) : Code :=
  test ++ .jumpIfFalse (base + test.length + 1 + body.length + 1) ::
    (body ++ [.jump base, .plain .nop])

/-- The instructions that compare the variable of a counting loop with its bound. -/
def Direction.testCode (direction : Direction) (slot : Nat) (stop : Code) : Code :=
  .load slot :: (stop ++ [.plain direction.test])

/-- The code of a counting loop whose rounds start at the index `again`. -/
def forCode (direction : Direction) (slot again : Nat) (start stop body : Code) : Code :=
  start ++ .store slot :: (direction.testCode slot stop ++
    .jumpIfFalse (again + (stop.length + 2) + 1 + body.length + 5) ::
      (body ++ direction.advanceCode slot again ++ [.plain .nop]))

@[simp] theorem Direction.length_testCode (direction : Direction) (slot : Nat) (stop : Code) :
    (direction.testCode slot stop).length = stop.length + 2 := by
  simp [Direction.testCode]

@[simp] theorem Direction.length_advanceCode (direction : Direction) (slot again : Nat) :
    (direction.advanceCode slot again).length = 5 := rfl

/-- A loop has three instructions besides its parts. -/
theorem length_whileCode (base : Nat) (test body : Code) :
    (whileCode base test body).length = test.length + 1 + body.length + 1 + 1 := by
  simp only [whileCode, List.length_append, List.length_cons, List.length_nil]
  omega

/-- A counting loop has ten instructions besides its parts. -/
theorem length_forCode (direction : Direction) (slot again : Nat) (start stop body : Code) :
    (forCode direction slot again start stop body).length
      = start.length + 1 + (stop.length + 2) + 1 + body.length + 5 + 1 := by
  simp only [forCode, List.length_append, List.length_cons, List.length_nil,
    Direction.length_testCode, Direction.length_advanceCode]
  omega

/-- After its variable has got its first value, a counting loop is a loop with a condition that
moves the variable at the end of every round. -/
theorem forCode_eq_whileCode (direction : Direction) (slot again : Nat) (start stop body : Code) :
    forCode direction slot again start stop body
      = start ++ .store slot :: whileCode again (direction.testCode slot stop)
          (body ++ direction.moveCode slot) := by
  -- Both leave the loop at the same index.
  have hlanding : again + (direction.testCode slot stop).length + 1
        + (body ++ direction.moveCode slot).length + 1
      = again + (stop.length + 2) + 1 + body.length + 5 := by
    rw [Direction.length_testCode, List.length_append]
    simp only [Direction.moveCode, List.length_cons, List.length_nil]
    omega
  unfold forCode whileCode Direction.advanceCode
  rw [hlanding]
  simp only [List.append_assoc, List.cons_append, List.nil_append]

mutual

/-- `c` is the code of a statement for the index `base`, between the two scopes. -/
inductive StmtCode (ctx : Context) : Nat → Scope → Stmt → Code → Scope → Prop where
  | declare {base : Nat} {scope : Scope} {decl : VarDecl} {init : Code}
      (hinit : ExprCode ctx scope decl.init init) :
      StmtCode ctx base scope (.declare decl) (init ++ [.store scope.nextSlot])
        (scope.declare decl.name)
  | assign {base : Nat} {scope : Scope} {name : String} {fields : List String} {value : Expr}
      {c : Code} {slot : Nat}
      (hvalue : ExprCode ctx scope value c) (hslot : scope.resolve? name = some slot) :
      StmtCode ctx base scope (.assign (name :: fields) value) (c ++ assignCode slot fields) scope
  | ifChain {base : Nat} {scope scope' : Scope} {chain : Chain} {c : Code}
      (hchain : ChainCode ctx base scope (base + c.length) chain c scope') :
      StmtCode ctx base scope (.ifChain chain) (c ++ [.plain .nop]) scope'
  | whileLoop {base : Nat} {scope scope' : Scope} {cond : Expr} {body : List Stmt}
      {test c : Code}
      (hcond : ExprCode ctx scope cond test)
      (hbody : SequenceCode ctx (base + test.length + 1) scope.enter body c scope') :
      StmtCode ctx base scope (.whileLoop cond body) (whileCode base test c) scope'.leave
  | forLoop {base : Nat} {scope scope' : Scope} {var : String} {start stop : Expr}
      {direction : Direction} {body : List Stmt} {first last c : Code} {slot again : Nat}
      {inner : Scope}
      (hstart : ExprCode ctx scope.enter start first)
      (hcounter : scope.enter.counter var = (slot, inner))
      (hstop : ExprCode ctx inner stop last)
      (hagain : again = base + first.length + 1)
      (hbody : SequenceCode ctx (again + (last.length + 2) + 1) inner.enter body c scope') :
      StmtCode ctx base scope (.forLoop var start direction stop body)
        (forCode direction slot again first last c) scope'.leave.leave
  | retNil {base : Nat} {scope : Scope} :
      StmtCode ctx base scope (.ret none) [.push .nil, .plain .ret] scope
  | ret {base : Nat} {scope : Scope} {e : Expr} {c : Code} (he : ExprCode ctx scope e c) :
      StmtCode ctx base scope (.ret (some e)) (c ++ [.plain .ret]) scope
  | delete {base : Nat} {scope : Scope} {name : String} {slot : Nat}
      (hslot : scope.resolve? name = some slot) :
      StmtCode ctx base scope (.delete name)
        [.load slot, .plain .free, .push .nil, .store slot] scope
  | call {base : Nat} {scope : Scope} {name : String} {args : List Expr} {c : Code}
      (hcall : ExprCode ctx scope (.call name args) c) :
      StmtCode ctx base scope (.call name args)
        (c ++ [(Instruction.plain .pop).withComment "clean up call return value"]) scope

/-- `c` is the code of statements that follow each other. -/
inductive SequenceCode (ctx : Context) : Nat → Scope → List Stmt → Code → Scope → Prop where
  | nil {base : Nat} {scope : Scope} : SequenceCode ctx base scope [] [] scope
  | cons {base : Nat} {scope mid scope' : Scope} {s : Stmt} {rest : List Stmt} {first c : Code}
      (hs : StmtCode ctx base scope s first mid)
      (hrest : SequenceCode ctx (base + first.length) mid rest c scope') :
      SequenceCode ctx base scope (s :: rest) (first ++ c) scope'

/-- `c` is the code of the branches of a conditional statement that meet again at `landing`. -/
inductive ChainCode (ctx : Context) : Nat → Scope → Nat → Chain → Code → Scope → Prop where
  | done {base : Nat} {scope : Scope} {landing : Nat} :
      ChainCode ctx base scope landing .done [] scope
  | otherwise {base : Nat} {scope scope' : Scope} {landing : Nat} {body : List Stmt} {c : Code}
      (hbody : SequenceCode ctx base scope.enter body c scope') :
      ChainCode ctx base scope landing (.otherwise body) c scope'.leave
  | branch {base : Nat} {scope mid scope' : Scope} {landing next : Nat} {cond : Expr}
      {body : List Stmt} {rest : Chain} {test c others : Code}
      (hcond : ExprCode ctx scope cond test)
      (hbody : SequenceCode ctx (base + test.length + 1) scope.enter body c mid)
      (hnext : next = base + test.length + 1 + c.length + (rest.exitCode landing).length)
      (hrest : ChainCode ctx next mid.leave landing rest others scope') :
      ChainCode ctx base scope landing (.branch cond body rest)
        (test ++ .jumpIfFalse next :: (c ++ rest.exitCode landing ++ others)) scope'

end

section Statements

variable {ctx : Context}

/-- A branch has one exit, or none if it is the last one. -/
theorem Chain.replicate_eq_exitCode (rest : Chain) (landing : Nat) :
    List.replicate (if rest.isDone then 0 else 1) (Instruction.jump landing)
      = rest.exitCode landing := by
  unfold Chain.exitCode
  split <;> rfl

@[simp] theorem Chain.length_exitCode (rest : Chain) (landing : Nat) :
    (rest.exitCode landing).length = if rest.isDone then 0 else 1 := by
  unfold Chain.exitCode
  split <;> rfl

/-- The code of a counting loop, in the terms of its shape. -/
theorem Stmt.code_forLoop (base : Nat) (scope : Scope) (var : String) (start stop : Expr)
    (direction : Direction) (body : List Stmt) :
    Stmt.code ctx base scope (.forLoop var start direction stop body) = (do
      let first ← start.code ctx scope.enter
      let (slot, inner) := scope.enter.counter var
      let last ← stop.code ctx inner
      let again := base + first.length + 1
      let (c, scope') ← Stmt.sequenceCode ctx (again + (last.length + 2) + 1) inner.enter body
      return (forCode direction slot again first last c, scope'.leave.leave)) := by
  have htest : ∀ slot (last : Code),
      (Instruction.load slot :: (last ++ [.plain direction.test])).length = last.length + 2 := by
    intro slot last
    simp
  rw [Stmt.code]
  simp only [htest]
  rfl

/-- The code of a branch, in the terms of its shape. -/
theorem Chain.code_branch (base : Nat) (scope : Scope) (cond : Expr) (body : List Stmt)
    (rest : Chain) :
    Chain.code ctx base scope (.branch cond body rest) = (do
      let test ← cond.code ctx scope
      let (c, scope') ← Stmt.sequenceCode ctx (base + test.length + 1) scope.enter body
      let next := base + test.length + 1 + c.length + (if rest.isDone then 0 else 1)
      let (others, scope') ← Chain.code ctx next scope'.leave rest
      return (test ++ .jumpIfFalse next :: (c ++ rest.exitCode (next + others.length) ++ others),
        scope')) := by
  rw [Chain.code]
  simp only [Chain.replicate_eq_exitCode]

/-- The code of a branch with those that follow it ends where the code of these does. -/
theorem Chain.end_branch {base next : Nat} {test c : Code} {rest : Chain}
    (hnext : next = base + test.length + 1 + c.length + (if rest.isDone then 0 else 1))
    (landing : Nat) (others : Code) :
    base + (test ++ .jumpIfFalse next :: (c ++ rest.exitCode landing ++ others)).length
      = next + others.length := by
  simp only [List.length_append, List.length_cons, Chain.length_exitCode]
  omega

mutual

/-- The code of a statement has its shape. -/
theorem Stmt.shape : ∀ {s : Stmt} {base : Nat} {scope : Scope} {c : Code} {scope' : Scope},
    Stmt.code ctx base scope s = .ok (c, scope') → StmtCode ctx base scope s c scope'
  | .declare decl, base, scope, c, scope', h => by
    rw [Stmt.code] at h
    obtain ⟨init, hinit, hc⟩ := bind_eq_ok.1 h
    cases hc
    exact .declare (Expr.shape hinit)
  | .assign [] value, base, scope, c, scope', h => by
    rw [Stmt.code] at h
    cases h
  | .assign (name :: fields) value, base, scope, c, scope', h => by
    rw [Stmt.code] at h
    obtain ⟨code, hvalue, h⟩ := bind_eq_ok.1 h
    obtain ⟨slot, hslot, hc⟩ := bind_eq_ok.1 h
    cases hc
    exact .assign (Expr.shape hvalue) (Context.resolve?_of_slot hslot)
  | .ifChain chain, base, scope, c, scope', h => by
    rw [Stmt.code] at h
    obtain ⟨⟨code, after⟩, hchain, hc⟩ := bind_eq_ok.1 h
    cases hc
    exact .ifChain (Chain.shape hchain)
  | .whileLoop cond body, base, scope, c, scope', h => by
    rw [Stmt.code] at h
    -- The stages of lowering, one after the other, each with the piece of code that it has made.
    obtain ⟨test, hcond, h⟩ := bind_eq_ok.1 h
    obtain ⟨⟨code, after⟩, hbody, hc⟩ := bind_eq_ok.1 h
    cases hc
    exact .whileLoop (Expr.shape hcond) (Stmt.sequence_shape hbody)
  | .forLoop var start direction stop body, base, scope, c, scope', h => by
    rw [Stmt.code_forLoop] at h
    obtain ⟨first, hstart, h⟩ := bind_eq_ok.1 h
    obtain ⟨last, hstop, h⟩ := bind_eq_ok.1 h
    obtain ⟨⟨code, after⟩, hbody, hc⟩ := bind_eq_ok.1 h
    cases hc
    exact .forLoop (Expr.shape hstart) rfl (Expr.shape hstop) rfl (Stmt.sequence_shape hbody)
  | .ret none, base, scope, c, scope', h => by
    rw [Stmt.code] at h
    cases h
    exact .retNil
  | .ret (some e), base, scope, c, scope', h => by
    rw [Stmt.code] at h
    obtain ⟨value, he, hc⟩ := bind_eq_ok.1 h
    cases hc
    exact .ret (Expr.shape he)
  | .delete name, base, scope, c, scope', h => by
    rw [Stmt.code] at h
    obtain ⟨slot, hslot, hc⟩ := bind_eq_ok.1 h
    cases hc
    exact .delete (Context.resolve?_of_slot hslot)
  | .call name args, base, scope, c, scope', h => by
    rw [Stmt.code] at h
    obtain ⟨value, hcall, hc⟩ := bind_eq_ok.1 h
    cases hc
    exact .call (Expr.shape hcall)

/-- The code of statements that follow each other has their shape. -/
theorem Stmt.sequence_shape :
    ∀ {body : List Stmt} {base : Nat} {scope : Scope} {c : Code} {scope' : Scope},
      Stmt.sequenceCode ctx base scope body = .ok (c, scope') →
        SequenceCode ctx base scope body c scope'
  | [], base, scope, c, scope', h => by
    rw [Stmt.sequenceCode] at h
    cases h
    exact .nil
  | s :: rest, base, scope, c, scope', h => by
    rw [Stmt.sequenceCode] at h
    obtain ⟨⟨first, mid⟩, hs, h⟩ := bind_eq_ok.1 h
    obtain ⟨⟨others, after⟩, hrest, hc⟩ := bind_eq_ok.1 h
    cases hc
    exact .cons (Stmt.shape hs) (Stmt.sequence_shape hrest)

/-- The code of branches has their shape, and they meet again at its end. -/
theorem Chain.shape : ∀ {chain : Chain} {base : Nat} {scope : Scope} {c : Code} {scope' : Scope},
    Chain.code ctx base scope chain = .ok (c, scope') →
      ChainCode ctx base scope (base + c.length) chain c scope'
  | .done, base, scope, c, scope', h => by
    rw [Chain.code] at h
    cases h
    exact .done
  | .otherwise body, base, scope, c, scope', h => by
    rw [Chain.code] at h
    obtain ⟨⟨code, after⟩, hbody, hc⟩ := bind_eq_ok.1 h
    cases hc
    exact .otherwise (Stmt.sequence_shape hbody)
  | .branch cond body rest, base, scope, c, scope', h => by
    rw [Chain.code_branch] at h
    obtain ⟨test, hcond, h⟩ := bind_eq_ok.1 h
    obtain ⟨⟨code, mid⟩, hbody, h⟩ := bind_eq_ok.1 h
    obtain ⟨⟨others, after⟩, hrest, hc⟩ := bind_eq_ok.1 h
    cases hc
    -- The exits of all branches lead to the end of the last one.
    have hlanding := Chain.shape hrest
    rw [Chain.end_branch rfl]
    exact .branch (Expr.shape hcond) (Stmt.sequence_shape hbody)
      (by rw [Chain.length_exitCode]) hlanding

end

end Statements

end RecordMachine
