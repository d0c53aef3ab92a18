import RecordMachine.Proofs.Acceptance.Program
import RecordMachine.Proofs.Generator.Writing
import RecordMachine.Proofs.Lowering.Depth

/-!
# The generator does what lowering says

Whatever a generator has in hand, what it makes of a program is what lowering computes
(`Program.emit_follows`): the same compiled program, or the same refusal, or no outcome where
lowering meets its bound. This holds for every depth that is at least the bound of lowering.

An answer of lowering foretells the outcome of a stage (`Follows`). An expression appends its code
to the blueprint (`Appends`). A statement writes its code by edits in order, which are known as
`Generator.Wrote`; lowering computes the targets of jumps from the lengths of the pieces around
them, and the generator finds them when it gets there (`Stmt.emit_follows`).
-/

namespace RecordMachine

open Generation

/-! ## Outcomes and answers -/

section Outcomes

variable {α β γ δ : Type}

/-- An outcome is a refusal for a reason. The bound of lowering is none: there is no outcome
then. -/
inductive Refuses : Option (Except LoweringError α × Generator) → LoweringError → Prop where
  | endless (type function : String) : Refuses none (.endlessRecord type function)
  | refused {e : LoweringError} (he : ∀ type function, e ≠ .endlessRecord type function)
      (g : Generator) : Refuses (some (.error e, g)) e

/-- An outcome is what an answer foretells: a result for the answer `b` is one with `post b`. -/
def Follows (outcome : Option (Except LoweringError α × Generator))
    (answer : Except LoweringError β) (post : β → α → Generator → Prop) : Prop :=
  match answer with
  | .ok b => ∃ a g, outcome = some (.ok a, g) ∧ post b a g
  | .error e => Refuses outcome e

/-- A refusal is handed on: the next stage is not reached. -/
theorem Refuses.bind {x : Generation α} {f : α → Generation γ} {g : Generator} {e : LoweringError}
    (h : Refuses (x g) e) : Refuses ((x >>= f) g) e := by
  generalize hx : x g = outcome at h
  cases h with
  | endless type function =>
    rw [bind_of_none hx]
    exact .endless type function
  | refused he g' =>
    rw [bind_of_error hx]
    exact .refused he g'

namespace Follows

variable {outcome : Option (Except LoweringError α × Generator)} {answer : Except LoweringError β}
  {post : β → α → Generator → Prop}

theorem ok {a : α} {b : β} {g : Generator} (h : outcome = some (.ok a, g)) (hpost : post b a g) :
    Follows outcome (.ok b) post :=
  ⟨a, g, h, hpost⟩

/-- Two stages, where the answer has two stages too. -/
theorem bind {x : Generation α} {f : α → Generation γ} {k : β → Except LoweringError δ}
    {g : Generator} {post' : δ → γ → Generator → Prop} (h : Follows (x g) answer post)
    (hf : ∀ b a g', answer = .ok b → post b a g' → Follows (f a g') (k b) post') :
    Follows ((x >>= f) g) (answer >>= k) post' := by
  cases answer with
  | error e => exact Refuses.bind h
  | ok b =>
    obtain ⟨a, g', hx, hpost⟩ := h
    rw [bind_of_ok hx]
    exact hf b a g' rfl hpost

theorem imp {post' : β → α → Generator → Prop} (h : Follows outcome answer post)
    (hpost : ∀ b a g, post b a g → post' b a g) : Follows outcome answer post' := by
  cases answer with
  | error e => exact h
  | ok b =>
    obtain ⟨a, g, ha, hb⟩ := h
    exact ⟨a, g, ha, hpost b a g hb⟩

/-- One stage, where something that cannot fail is added to the answer. -/
theorem added {post' : γ → α → Generator → Prop} {k : β → γ} (h : Follows outcome answer post)
    (hpost : ∀ b a g, post b a g → post' (k b) a g) :
    Follows outcome (answer >>= fun b => .ok (k b)) post' := by
  cases answer with
  | error e => exact h
  | ok b =>
    obtain ⟨a, g, ha, hb⟩ := h
    exact ⟨a, g, ha, hpost b a g hb⟩

/-- Where lowering meets its bound, the stage has no outcome. -/
theorem eq_none (h : Follows outcome answer post) (hend : Endless answer) : outcome = none := by
  obtain ⟨type, function, rfl⟩ := hend
  generalize he : LoweringError.endlessRecord type function = e at h
  cases h with
  | endless => rfl
  | refused hne => exact absurd he.symm (hne type function)

/-- Having no outcome is what an answer about the bound foretells. -/
theorem of_eq_none (h : outcome = none) (hend : Endless answer) : Follows outcome answer post := by
  obtain ⟨type, function, rfl⟩ := hend
  rw [h]
  exact Refuses.endless type function

/-- An answer that is not about the bound foretells an outcome. -/
theorem exists_outcome {answer : Except LoweringError α}
    (h : Follows outcome answer fun b a _ => a = b) (hend : ¬Endless answer) :
    ∃ g, outcome = some (answer, g) := by
  cases answer with
  | ok b =>
    obtain ⟨a, g, ha, rfl⟩ := h
    exact ⟨g, ha⟩
  | error e =>
    cases h with
    | endless type function => exact absurd ⟨type, function, rfl⟩ hend
    | refused _ g => exact ⟨g, rfl⟩

/-- What follows from what the generator knows about names leaves it as it is. -/
theorem consult (table : TypeTable) (f : Context → Scope → Except LoweringError α) (g : Generator)
    (hend : ¬Endless (f (g.context table) g.scope)) :
    Follows (Generation.consult table f g) (f (g.context table) g.scope)
      fun b a g' => a = b ∧ g' = g := by
  unfold Generation.consult
  cases h : f (g.context table) g.scope with
  | ok a => exact ⟨a, g, rfl, rfl, rfl⟩
  | error e =>
    refine Refuses.refused (fun type function he => hend ?_) g
    rw [h, he]
    exact ⟨type, function, rfl⟩

end Follows

end Outcomes

/-! ## Expressions -/

namespace Generator

/-- What the generator knows about names, and which variables it sees. -/
def Sees (g : Generator) (table : TypeTable) (ctx : Context) (scope : Scope) : Prop :=
  g.context table = ctx ∧ g.scope = scope

/-- Writing code changes nothing that is known about names. -/
theorem Sees.extend {g : Generator} {table : TypeTable} {ctx : Context} {scope : Scope}
    (h : g.Sees table ctx scope) (c : Code) : (g.extend c).Sees table ctx scope := by
  rw [extend_eq]
  exact h

end Generator

/-- A stage appends the code that an answer gives, wherever a generator sees these names. -/
def Appends (table : TypeTable) (ctx : Context) (scope : Scope) (x : Generation Unit)
    (answer : Except LoweringError Code) : Prop :=
  ∀ g : Generator, g.Sees table ctx scope → Follows (x g) answer fun c _ g' => g' = g.extend c

section Expressions

variable {table : TypeTable} {ctx : Context} {scope : Scope}

theorem appends_write (c : Code) : Appends table ctx scope (write c) (.ok c) :=
  fun _ _ => .ok rfl rfl

/-- Code that follows from what is known about names. -/
theorem appends_consult {α : Type} {f : Context → Scope → Except LoweringError α}
    {rest : α → Generation Unit} {k : α → Except LoweringError Code}
    (hend : ¬Endless (f ctx scope)) (h : ∀ a, Appends table ctx scope (rest a) (k a)) :
    Appends table ctx scope (consult table f >>= rest) (f ctx scope >>= k) := by
  rintro g ⟨rfl, rfl⟩
  refine (Follows.consult table f g hend).bind ?_
  rintro a _ _ ha ⟨rfl, rfl⟩
  exact h _ _ ⟨rfl, rfl⟩

theorem Appends.followed {x y : Generation Unit} {answer answer' : Except LoweringError Code}
    (h : Appends table ctx scope x answer) (h' : Appends table ctx scope y answer') :
    Appends table ctx scope (x >>= fun _ => y)
      (answer >>= fun c => answer' >>= fun c' => .ok (c ++ c')) := by
  intro g hg
  refine (h g hg).bind ?_
  rintro c _ _ _ rfl
  have hrest := h' (g.extend c) (hg.extend c)
  cases answer' with
  | error e => exact hrest
  | ok c' =>
    obtain ⟨a, g', ha, rfl⟩ := hrest
    exact .ok ha (g.extend_append c c')

mutual

/-- An expression is appended as it is lowered, if constructions are. Induction on the expression;
the stages of both sides stand in the same order, so a refusal comes at the same place. -/
theorem Expr.emitWith_appends {construct : String → Generation Unit}
    {construct' : String → Except LoweringError Code}
    (h : ∀ type, Appends table ctx scope (construct type) (construct' type)) : ∀ e : Expr,
      Appends table ctx scope (e.emitWith table construct) (e.codeWith ctx scope construct')
  | .literal l => appends_write _
  | .path names => by
    rw [Expr.emitWith, Expr.codeWith]
    -- Lowering a path has a single stage; the generator looks the code up and then writes it.
    have hpath : Appends table ctx scope
        (consult table (fun ctx scope => ctx.pathCode scope names) >>= write)
        (ctx.pathCode scope names >>= .ok) :=
      appends_consult (ctx.not_endless_pathCode scope names) appends_write
    rwa [show (ctx.pathCode scope names >>= .ok) = ctx.pathCode scope names from bind_pure _]
      at hpath
  | .new type => h type
  | .call name args => by
    rw [Expr.emitWith, Expr.codeWith]
    refine appends_consult (ctx.not_endless_calleeCode name args.length) fun callee => ?_
    exact (Expr.emitAllWith_appends h args).followed (appends_write callee)
  | .unary op e => by
    rw [Expr.emitWith, Expr.codeWith]
    exact (Expr.emitWith_appends h e).followed (appends_write _)
  | .binary op left right => by
    rw [Expr.emitWith, Expr.codeWith]
    -- The operator is written with the right operand, which is how the pieces of code are put
    -- together.
    have hright := (Expr.emitWith_appends h right).followed (appends_write [.plain op.opcode])
    have hboth := (Expr.emitWith_appends h left).followed hright
    simp only [bind_assoc, ok_bind, ← List.append_assoc] at hboth
    exact hboth
  | .group e => Expr.emitWith_appends h e

/-- The arguments of a call are appended from left to right. -/
theorem Expr.emitAllWith_appends {construct : String → Generation Unit}
    {construct' : String → Except LoweringError Code}
    (h : ∀ type, Appends table ctx scope (construct type) (construct' type)) : ∀ es : List Expr,
      Appends table ctx scope (Expr.emitAllWith table construct es)
        (Expr.codeAllWith ctx scope construct' es)
  | [] => fun g _ => .ok rfl g.extend_nil.symm
  | e :: rest => by
    rw [Expr.emitAllWith, Expr.codeAllWith]
    exact (Expr.emitWith_appends h e).followed (Expr.emitAllWith_appends h rest)

end

/-- The fields are filled in the order of the declaration. Induction on them. -/
theorem emitFields_appends {lower : Expr → Generation Unit}
    {lower' : Expr → Except LoweringError Code}
    (h : ∀ e, Appends table ctx scope (lower e) (lower' e)) (fields : List VarDecl) :
    Appends table ctx scope (emitFields lower fields) (fieldsCode lower' fields) := by
  induction fields with
  | nil => exact fun g _ => .ok rfl g.extend_nil.symm
  | cons field rest ih =>
    rw [emitFields, fieldsCode]
    have hset := (appends_write [.setField field.name]).followed ih
    have hinit := (h field.init).followed hset
    have hall := (appends_write [.plain .dup]).followed hinit
    simp only [bind_assoc, ok_bind, List.cons_append, List.nil_append] at hall
    exact hall

/-- Constructing an object appends its code, with any bound on the constructions inside. -/
theorem emitNew_appends (depth : Nat) (type : String) :
    Appends table ctx scope (emitNew table depth type) (constructCode ctx scope depth type) := by
  induction depth generalizing type with
  | zero =>
    rw [emitNew, constructCode]
    refine appends_consult (ctx.not_endless_layout type) fun _ => ?_
    -- No construction is allowed any more, on either side.
    exact fun g _ => .of_eq_none rfl ⟨type, ctx.function, rfl⟩
  | succ depth ih =>
    rw [emitNew, constructCode]
    refine appends_consult (ctx.not_endless_layout type) ?_
    rintro ⟨names, fields⟩
    exact (appends_write [.alloc names]).followed
      (emitFields_appends (fun e => Expr.emitWith_appends ih e) fields)

/-- An expression that meets the bound of lowering meets every bound. -/
theorem Expr.endless_codeWith {e : Expr} (h : Endless (e.code ctx scope)) (depth : Nat) :
    Endless (e.codeWith ctx scope (constructCode ctx scope depth)) := by
  obtain ⟨type, _, hmet, hall⟩ := Expr.codeWith_hinges ctx.depthLimit e h
  exact hall depth ((endless_of_depthLimit hmet).2 depth)

/-- An expression is appended as it is lowered, with any bound that is at least that of lowering. -/
theorem Expr.emit_appends {depth : Nat} (hdepth : ctx.depthLimit ≤ depth) (e : Expr) :
    Appends table ctx scope (e.emit table depth) (e.code ctx scope) := by
  intro g hg
  have hown := Expr.emitWith_appends (fun type => emitNew_appends depth type) e g hg
  -- A larger bound changes nothing, unless lowering met its own, and then it meets every one.
  rcases directed_codeWith e hdepth with hend | heq
  · exact .of_eq_none (hown.eq_none (Expr.endless_codeWith hend depth)) hend
  · have heq : e.code ctx scope = e.codeWith ctx scope (constructCode ctx scope depth) := heq
    rw [heq]
    exact hown

end Expressions

/-! ## Statements -/

namespace Generation

/-! Stages that cannot fail. -/

section Stages

variable {α : Type} (g : Generator)

theorem bind_write (c : Code) (f : Unit → Generation α) : (write c >>= f) g = f () (g.extend c) :=
  rfl

theorem bind_offset (f : Nat → Generation α) : (offset >>= f) g = f g.offset g := rfl

theorem bind_enter (f : Unit → Generation α) : (enter >>= f) g = f () g.enter := rfl

theorem bind_leave (f : Unit → Generation α) : (leave >>= f) g = f () g.leave := rfl

theorem bind_patch (indices : List Nat) (target : Nat) (f : Unit → Generation α) :
    (patch indices target >>= f) g = f () (g.patch indices target) := rfl

theorem bind_declare (name : String) (f : Nat → Generation α) :
    (declare name >>= f) g = f g.scope.nextSlot (g.withScope (g.scope.declare name)) := rfl

theorem bind_counter (var : String) (f : Nat → Generation α) :
    (counter var >>= f) g = f (g.scope.counter var).1 (g.withScope (g.scope.counter var).2) := rfl

end Stages

end Generation

section Statements

variable {ctx : Context} {lower : Expr → Generation Unit} {g : Generator} {base : Nat}
  {scope : Scope}

/-- At an index of a function, names mean what they mean in its context. -/
theorem Generator.At.sees (h : g.At ctx base scope) : g.Sees ctx.table ctx scope := by
  refine ⟨?_, h.scope_eq⟩
  unfold Generator.context
  rw [h.types_eq, h.name_eq]

/-- An expression inside a statement is appended. -/
theorem Generator.At.follows_lower {α β : Type} (hg : g.At ctx base scope)
    (h : ∀ scope e, Appends ctx.table ctx scope (lower e) (e.code ctx scope)) (e : Expr)
    {f : Unit → Generation α} {k : Code → Except LoweringError β} {post : β → α → Generator → Prop}
    (hf : ∀ c, Follows (f () (g.extend c)) (k c) post) :
    Follows ((lower e >>= f) g) (e.code ctx scope >>= k) post := by
  refine (h scope e g hg.sees).bind ?_
  rintro c _ _ _ rfl
  exact hf c

/-- The slot of a variable that a statement names. -/
theorem Generator.At.follows_slot {α β : Type} (hg : g.At ctx base scope) (name : String)
    {f : Nat → Generation α} {k : Nat → Except LoweringError β} {post : β → α → Generator → Prop}
    (hf : ∀ slot, Follows (f slot g) (k slot) post) :
    Follows ((consult ctx.table (fun ctx scope => ctx.slot scope name) >>= f) g)
      (ctx.slot scope name >>= k) post := by
  have hslot := Follows.consult ctx.table (fun ctx scope => ctx.slot scope name) g
    (Context.not_endless_slot _ _ _)
  rw [hg.sees.1, hg.scope_eq] at hslot
  refine hslot.bind ?_
  rintro slot _ _ _ ⟨rfl, rfl⟩
  exact hf _

/-- The last instructions of a statement. -/
theorem Generator.Wrote.follows_write {g' : Generator} {c : Code} (h : g.Wrote c scope g')
    (last : Code) :
    Follows (write last g') (.ok (c ++ last, scope)) fun r _ g' => g.Wrote r.1 r.2 g' :=
  .ok rfl (h.extend last)

/-- The exit of a branch is open until the end of the conditional statement is known. -/
theorem Chain.fills_exitCode (rest : Chain) (base landing : Nat) :
    Fills landing base (if rest.isDone then [] else [base]) (rest.exitCode pendingAddress)
      (rest.exitCode landing) := by
  unfold Chain.exitCode
  split
  · exact .nil
  · exact .fill Instruction.isOpen_jump .nil

mutual

/-- A statement is written as it is lowered, or refused for the same reason. The induction is on the
statement; each part of it is foretold by the part of lowering at the same place. -/
theorem Stmt.emit_follows
    (h : ∀ scope e, Appends ctx.table ctx scope (lower e) (e.code ctx scope)) :
    ∀ (s : Stmt) {g : Generator} {base : Nat} {scope : Scope}, g.At ctx base scope →
      Follows (s.emit ctx.table lower g) (s.code ctx base scope) fun r _ g' => g.Wrote r.1 r.2 g'
  | .declare decl, g, base, scope, hg => by
    rw [Stmt.emit, Stmt.code]
    refine hg.follows_lower h decl.init fun c => ?_
    rw [bind_declare, Generator.scope_extend, hg.scope_eq]
    exact .ok rfl ((((Generator.Wrote.refl g).extend c).withScope _).extend _)
  | .assign [] value, g, base, scope, hg => by
    rw [Stmt.emit, Stmt.code]
    show Refuses (some (.error (.emptyPath g.blueprint.name), g)) (.emptyPath ctx.function)
    rw [hg.name_eq]
    exact .refused (fun _ _ => LoweringError.noConfusion) _
  | .assign (name :: fields) value, g, base, scope, hg => by
    rw [Stmt.emit, Stmt.code]
    refine hg.follows_lower h value fun c => ?_
    -- The variable is looked up after the value, in the same scope.
    exact (hg.extend c).follows_slot name fun slot => (hg.wrote_extend c).follows_write _
  | .ifChain chain, g, base, scope, hg => by
    rw [Stmt.emit, Stmt.code]
    refine (Chain.emit_follows h chain hg).bind ?_
    rintro ⟨code, after⟩ exits g₁ _ ⟨open₀, hwrote, hfills⟩
    simp only [bind_offset, bind_write]
    -- The exits lead to the index behind the branches.
    have hlanding : g₁.offset = base + code.length := by
      rw [(hg.wrote hwrote).offset_eq, hfills.length_eq]
    rw [← hlanding, ← hg.offset_eq] at hfills
    have hfills' := hfills.append (.refl [Instruction.plain .nop])
    rw [List.append_nil] at hfills'
    exact .ok rfl ((hwrote.extend [.plain .nop]).patch hfills' (by simp))
  | .whileLoop cond body, g, base, scope, hg => by
    rw [Stmt.emit, Stmt.code, bind_offset, hg.offset_eq]
    refine hg.follows_lower h cond fun test => ?_
    simp only [bind_offset, bind_write, bind_enter]
    refine (Stmt.emitAll_follows h body ((hg.extend test).extend [_]).enter).bind ?_
    rintro ⟨code, inner⟩ _ g₁ _ hwrote
    simp only [bind_offset, bind_write, bind_leave]
    have hloop := hwrote.loop []
    rw [List.append_nil, hg.offset_eq] at hloop
    exact .ok rfl hloop
  | .forLoop var start direction stop body, g, base, scope, hg => by
    rw [Stmt.emit, Stmt.code_forLoop, bind_enter]
    refine hg.enter.follows_lower h start fun first => ?_
    rw [bind_counter, bind_write, Generator.scope_extend, hg.enter.scope_eq]
    obtain ⟨slot, inner⟩ := scope.enter.counter var
    -- Here the rounds start. From this point on the loop is one with a condition.
    generalize hrounds : ((g.enter.extend first).withScope inner).extend [.store slot] = g₀
    have hfirst : g.Wrote (first ++ [.store slot]) inner g₀ :=
      hrounds ▸ (((Generator.Wrote.refl g).enter.extend first).withScope inner).extend [_]
    have hg₀ : g₀.At ctx (base + first.length + 1) inner := by
      have hat := hg.wrote hfirst
      rwa [List.length_append, ← Nat.add_assoc] at hat
    rw [bind_offset, bind_write, hg₀.offset_eq]
    refine (hg₀.extend [_]).follows_lower h stop fun last => ?_
    have htest : ((g₀.extend [.load slot]).extend last).extend [.plain direction.test]
        = g₀.extend (direction.testCode slot last) := by
      rw [Generator.extend_append, Generator.extend_append]
      rfl
    simp only [bind_offset, bind_write, bind_enter, htest]
    have hbody := ((hg₀.extend (direction.testCode slot last)).extend
      [.jumpIfFalse pendingAddress]).enter
    rw [Direction.length_testCode] at hbody
    refine (Stmt.emitAll_follows h body hbody).bind ?_
    rintro ⟨code, after⟩ _ g₁ _ hwrote
    simp only [bind_offset, bind_write, bind_leave, bind_patch]
    have hloop := (hfirst.trans (hwrote.loop (direction.moveCode slot))).leave
    rw [List.append_assoc, hg₀.offset_eq] at hloop
    rw [forCode_eq_whileCode]
    exact .ok rfl hloop
  | .ret none, g, base, scope, hg => hg.wrote_nil.follows_write _
  | .ret (some value), g, base, scope, hg => by
    rw [Stmt.emit, Stmt.code]
    exact hg.follows_lower h value fun c => (hg.wrote_extend c).follows_write _
  | .delete name, g, base, scope, hg => by
    rw [Stmt.emit, Stmt.code]
    exact hg.follows_slot name fun slot => hg.wrote_nil.follows_write _
  | .call name args, g, base, scope, hg => by
    rw [Stmt.emit, Stmt.code]
    exact hg.follows_lower h (.call name args) fun c => (hg.wrote_extend c).follows_write _

/-- Statements that follow each other: what the first one wrote is where the next one begins. -/
theorem Stmt.emitAll_follows
    (h : ∀ scope e, Appends ctx.table ctx scope (lower e) (e.code ctx scope)) :
    ∀ (body : List Stmt) {g : Generator} {base : Nat} {scope : Scope}, g.At ctx base scope →
      Follows (Stmt.emitAll ctx.table lower body g) (Stmt.sequenceCode ctx base scope body)
        fun r _ g' => g.Wrote r.1 r.2 g'
  | [], g, base, scope, hg => .ok rfl hg.wrote_nil
  | s :: rest, g, base, scope, hg => by
    rw [Stmt.emitAll, Stmt.sequenceCode]
    refine (Stmt.emit_follows h s hg).bind ?_
    rintro ⟨first, mid⟩ _ g₁ _ hwrote
    have hrest := Stmt.emitAll_follows h rest (hg.wrote hwrote)
    exact hrest.added fun _ _ _ hwrote' => hwrote.trans hwrote'

/-- Branches are written as they are lowered, but for their exits, which are still open. -/
theorem Chain.emit_follows
    (h : ∀ scope e, Appends ctx.table ctx scope (lower e) (e.code ctx scope)) :
    ∀ (chain : Chain) {g : Generator} {base : Nat} {scope : Scope}, g.At ctx base scope →
      Follows (chain.emit ctx.table lower g) (chain.code ctx base scope) fun r exits g' =>
        ∃ c₀, g.Wrote c₀ r.2 g' ∧ Fills (base + r.1.length) base exits c₀ r.1
  | .done, g, base, scope, hg => .ok rfl ⟨[], hg.wrote_nil, .nil⟩
  | .otherwise body, g, base, scope, hg => by
    rw [Chain.emit, Chain.code, bind_enter]
    refine (Stmt.emitAll_follows h body hg.enter).bind ?_
    rintro ⟨code, after⟩ _ g₁ _ hwrote
    exact .ok rfl ⟨code, ((Generator.Wrote.refl g).enter.trans hwrote).leave, .refl code⟩
  | .branch cond body rest, g, base, scope, hg => by
    rw [Chain.emit, Chain.code_branch]
    refine hg.follows_lower h cond fun test => ?_
    simp only [bind_offset, bind_write, bind_enter]
    refine (Stmt.emitAll_follows h body ((hg.extend test).extend [_]).enter).bind ?_
    rintro ⟨code, mid⟩ _ g₁ _ hwrote
    simp only [bind_offset, bind_write, bind_leave, bind_patch]
    generalize hnext : base + test.length + 1 + code.length + (if rest.isDone then 0 else 1) = next
    obtain ⟨hend, hskip⟩ := hwrote.branch rest (hg.offset_eq ▸ hnext.symm)
    rw [hend]
    -- The exit stands behind the condition, the jump and the body.
    have hstart : base + (test ++ .jumpIfFalse next :: code).length = g₁.leave.offset := by
      have hblock := (((Generator.Wrote.refl g).extend test).block hwrote).offset_eq
      rw [hblock, hg.offset_eq]
      simp
    rw [Generator.offset_extend] at hend
    have hresume := hg.wrote hskip
    rw [List.length_append, ← Nat.add_assoc, hstart, hend] at hresume
    refine (Chain.emit_follows h rest hresume).bind ?_
    rintro ⟨others, after⟩ exits g₂ _ ⟨open₀, hwrote', hfills⟩
    -- Open are the exit of this branch and those of the branches behind it.
    have hown := rest.fills_exitCode g₁.leave.offset (next + others.length)
    rw [← hstart] at hown
    have hbehind : Fills (next + others.length) (base
        + (test ++ .jumpIfFalse next :: code ++ rest.exitCode pendingAddress).length) exits open₀
          others := by
      rw [List.length_append, ← Nat.add_assoc, hstart, hend]
      exact hfills
    have hall := ((Fills.refl (test ++ .jumpIfFalse next :: code)).append hown).append hbehind
    rw [List.nil_append, hstart] at hall
    refine .ok rfl ⟨_, hskip.trans hwrote', ?_⟩
    rw [Chain.end_branch hnext.symm]
    simpa only [List.append_assoc, List.cons_append] using hall

end

end Statements

/-! ## Functions and programs -/

/-- Declaring the parameters is the fold that `Scope.ofParams` makes of them. -/
theorem Generation.bind_declareAll {α : Type} (names : List String) (f : Unit → Generation α)
    (g : Generator) :
    (declareAll names >>= f) g = f () { g with scope := names.foldl Scope.declare g.scope } := by
  have hdeclared : declareAll names g
      = some (.ok (), { g with scope := names.foldl Scope.declare g.scope }) := by
    induction names generalizing g with
    | nil => rfl
    | cons name rest ih => exact ih { g with scope := g.scope.declare name }
  exact bind_of_ok hdeclared

/-- What the generator has in hand before a function does not matter, its record types apart: it
writes what lowering computes, and its history consists of edits in order. -/
theorem FunDecl.draft_follows (f : FunDecl) (table : TypeTable) {depth : Nat} (g : Generator)
    (hdepth : g.types.length ≤ depth) :
    Follows (f.draft table (Expr.emit table depth) g) (f.lower table g.types) fun b _ g' =>
      g'.blueprint = b ∧ g'.types = g.types ∧ Exact ⟨f.name, f.params.length, #[]⟩ g'.edits b := by
  let ctx : Context := ⟨table, g.types, f.name⟩
  let begun : Generator :=
    ⟨g.types, ⟨f.name, f.params.length, #[]⟩, Scope.ofParams (f.params.map Param.name), []⟩
  -- What the generator had in hand is overwritten before anything depends on it, but for the types.
  have hstart : f.draft table (Expr.emit table depth) g = (do
      Stmt.emitAll table (Expr.emit table depth) f.body
      write (closingCode f.body)) begun := by
    unfold FunDecl.draft
    exact bind_declareAll (f.params.map Param.name) _ _
  have hbegun : begun.At ctx 0 (Scope.ofParams (f.params.map Param.name)) := ⟨rfl, rfl, rfl, rfl⟩
  rw [hstart]
  unfold FunDecl.lower
  refine (Stmt.emitAll_follows (fun _ e => Expr.emit_appends hdepth e) f.body hbegun).bind ?_
  rintro ⟨c, scope'⟩ _ g' _ hwrote
  have hwhole := hwrote.extend (closingCode f.body)
  have hblueprint : (g'.extend (closingCode f.body)).blueprint
      = ⟨f.name, f.params.length, (c ++ closingCode f.body).toArray⟩ := by
    rw [hwhole.blueprint_eq]
    simp [Blueprint.extend, begun]
  -- The history is that of this function alone, as it was emptied at the start.
  obtain ⟨es, hes, hexact⟩ := hwhole.history
  refine .ok rfl ⟨hblueprint, hwhole.types_eq, ?_⟩
  rw [hes, ← hblueprint]
  exact hexact

/-- The blueprint that is handed out is the one that was drafted. -/
theorem FunDecl.emit_follows (f : FunDecl) (table : TypeTable) {depth : Nat} (g : Generator)
    (hdepth : g.types.length ≤ depth) :
    Follows (f.emit table (Expr.emit table depth) g) (f.lower table g.types)
      fun b a g' => a = b ∧ g'.types = g.types := by
  rw [show f.lower table g.types = f.lower table g.types >>= .ok from (bind_pure _).symm]
  refine (f.draft_follows table g hdepth).bind ?_
  rintro b _ g' _ ⟨hb, htypes, _⟩
  exact .ok rfl ⟨hb, htypes⟩

/-- Functions one after the other. Between two of them only the record types are kept, which all
have in common. -/
theorem FunDecl.emitAll_follows (table : TypeTable) {types : List TypeDecl} {depth : Nat}
    (hdepth : types.length ≤ depth) (fs : List FunDecl) (bc : Bytecode) (g : Generator)
    (hg : g.types = types) :
    Follows (FunDecl.emitAll table (Expr.emit table depth) bc fs g)
      (Program.outcome (Program.lowerAll table types bc fs)) fun b a _ => a = b := by
  induction fs generalizing bc g with
  | nil => exact .ok rfl rfl
  | cons f rest ih =>
    rw [FunDecl.emitAll, Program.outcome_lowerAll_cons]
    split
    · exact Refuses.refused (fun _ _ => LoweringError.noConfusion) g
    · subst hg
      refine (f.emit_follows table g hdepth).bind ?_
      rintro b _ g' _ ⟨rfl, hg'⟩
      exact ih _ g' hg'

/-- Whatever a generator has in hand, it makes of a program what lowering computes, with any bound
that is at least that of lowering. -/
theorem Program.emit_follows (p : Program) (table : TypeTable) {depth : Nat}
    (hdepth : p.types.length ≤ depth) (g : Generator) :
    Follows (p.emit table depth g) (p.lower table) fun b a _ => a = b := by
  rw [p.lower_eq_outcome]
  exact FunDecl.emitAll_follows table hdepth p.functions .empty { g with types := p.types } rfl

end RecordMachine
