import RecordMachine.Proofs.Generator.Agreement

/-!
# How deep generation goes

A stage that has an outcome with some depth has the same outcome with every larger one
(`Program.emit_within`), so that it makes sense to say that generation ends (`Generator.Emits`). It
ends with a result exactly if lowering computes this result without meeting its bound
(`Generator.emits_iff`).
-/

namespace RecordMachine

open Generation

/-! ## Outcomes that are kept -/

/-- Wherever the first stage has an outcome, the other one has the same. -/
def Generation.Within {α : Type} (x y : Generation α) : Prop := ∀ g r, x g = some r → y g = some r

namespace Generation.Within

variable {α β : Type}

theorem refl (x : Generation α) : Within x x := fun _ _ h => h

theorem unfinished (y : Generation α) : Within unfinished y := by
  intro g r h
  cases h

/-- Stages that follow each other keep their outcome if each of them does. -/
theorem bind {x y : Generation α} {f f' : α → Generation β} (h : Within x y)
    (hf : ∀ a, Within (f a) (f' a)) : Within (x >>= f) (y >>= f') := by
  intro g r hr
  cases hx : x g with
  | none =>
    rw [bind_of_none hx] at hr
    cases hr
  | some outcome =>
    obtain ⟨result, g'⟩ := outcome
    have hy := h g _ hx
    cases result with
    | error e =>
      rw [bind_of_error hx] at hr
      rw [bind_of_error hy, hr]
    | ok a =>
      rw [bind_of_ok hx] at hr
      rw [bind_of_ok hy]
      exact hf a g' r hr

/-- The same stage before others. -/
theorem after (x : Generation α) {f f' : α → Generation β} (hf : ∀ a, Within (f a) (f' a)) :
    Within (x >>= f) (x >>= f') :=
  (refl x).bind hf

end Generation.Within

/-! ## Constructions, statements and programs -/

section Within

variable {table : TypeTable}

mutual

/-- If constructions keep their outcomes, so does an expression. Induction on the expression. -/
theorem Expr.emitWith_within {construct construct' : String → Generation Unit}
    (h : ∀ type, Within (construct type) (construct' type)) : ∀ e : Expr,
      Within (e.emitWith table construct) (e.emitWith table construct')
  | .literal l => .refl _
  | .path names => .refl _
  | .new type => h type
  | .call name args => by
    rw [Expr.emitWith, Expr.emitWith]
    exact .after _ fun _ => (Expr.emitAllWith_within h args).bind fun _ => .refl _
  | .unary op e => by
    rw [Expr.emitWith, Expr.emitWith]
    exact (Expr.emitWith_within h e).bind fun _ => .refl _
  | .binary op left right => by
    rw [Expr.emitWith, Expr.emitWith]
    exact (Expr.emitWith_within h left).bind fun _ =>
      (Expr.emitWith_within h right).bind fun _ => .refl _
  | .group e => by
    rw [Expr.emitWith, Expr.emitWith]
    exact Expr.emitWith_within h e

theorem Expr.emitAllWith_within {construct construct' : String → Generation Unit}
    (h : ∀ type, Within (construct type) (construct' type)) : ∀ es : List Expr,
      Within (Expr.emitAllWith table construct es) (Expr.emitAllWith table construct' es)
  | [] => .refl _
  | e :: rest => by
    rw [Expr.emitAllWith, Expr.emitAllWith]
    exact (Expr.emitWith_within h e).bind fun _ => Expr.emitAllWith_within h rest

end

theorem emitFields_within {lower lower' : Expr → Generation Unit}
    (h : ∀ e, Within (lower e) (lower' e)) (fields : List VarDecl) :
    Within (emitFields lower fields) (emitFields lower' fields) := by
  induction fields with
  | nil => exact .refl _
  | cons field rest ih =>
    exact .after _ fun _ => (h field.init).bind fun _ => .after _ fun _ => ih

/-- One more level of constructions keeps every outcome. Induction on the depth: without any level
left there is no outcome to keep. -/
theorem emitNew_within (depth : Nat) (type : String) :
    Within (emitNew table depth type) (emitNew table (depth + 1) type) := by
  induction depth generalizing type with
  | zero =>
    rw [emitNew, emitNew]
    exact .after _ fun _ => .unfinished _
  | succ depth ih =>
    rw [emitNew, emitNew]
    exact .after _ fun layout => .after _ fun _ =>
      emitFields_within (fun e => e.emitWith_within ih) layout.2

/-- Any larger depth keeps the outcomes, level by level. -/
theorem Expr.emit_within {depth depth' : Nat} (hle : depth ≤ depth') (e : Expr) :
    Within (e.emit table depth) (e.emit table depth') := by
  induction hle with
  | refl => exact .refl _
  | step _ ih =>
    exact fun g r h => e.emitWith_within (fun type => emitNew_within _ type) g r (ih g r h)

section Statements

variable {lower lower' : Expr → Generation Unit}

mutual

/-- A statement keeps its outcome if the expressions in it do. All its other stages are the same. -/
theorem Stmt.emit_within (h : ∀ e, Within (lower e) (lower' e)) : ∀ s : Stmt,
    Within (s.emit table lower) (s.emit table lower')
  | .declare decl => by
    rw [Stmt.emit, Stmt.emit]
    exact (h decl.init).bind fun _ => .refl _
  | .assign [] value => by
    rw [Stmt.emit, Stmt.emit]
    exact .refl _
  | .assign (name :: fields) value => by
    rw [Stmt.emit, Stmt.emit]
    exact (h value).bind fun _ => .refl _
  | .ifChain chain => by
    rw [Stmt.emit, Stmt.emit]
    exact (Chain.emit_within h chain).bind fun _ => .refl _
  | .whileLoop cond body => by
    rw [Stmt.emit, Stmt.emit]
    exact .after _ fun _ => (h cond).bind fun _ => .after _ fun _ => .after _ fun _ =>
      .after _ fun _ => (Stmt.emitAll_within h body).bind fun _ => .refl _
  | .forLoop var start direction stop body => by
    rw [Stmt.emit, Stmt.emit]
    -- All stages but those that lower an expression or a body are the same on both sides.
    exact .after _ fun _ => (h start).bind fun _ => .after _ fun _ => .after _ fun _ =>
      .after _ fun _ => .after _ fun _ => (h stop).bind fun _ => .after _ fun _ =>
        .after _ fun _ => .after _ fun _ => .after _ fun _ =>
          (Stmt.emitAll_within h body).bind fun _ => .refl _
  | .ret none => by
    rw [Stmt.emit, Stmt.emit]
    exact .refl _
  | .ret (some value) => by
    rw [Stmt.emit, Stmt.emit]
    exact (h value).bind fun _ => .refl _
  | .delete name => by
    rw [Stmt.emit, Stmt.emit]
    exact .refl _
  | .call name args => by
    rw [Stmt.emit, Stmt.emit]
    exact (h (.call name args)).bind fun _ => .refl _

theorem Stmt.emitAll_within (h : ∀ e, Within (lower e) (lower' e)) : ∀ body : List Stmt,
    Within (Stmt.emitAll table lower body) (Stmt.emitAll table lower' body)
  | [] => .refl _
  | s :: rest => by
    rw [Stmt.emitAll, Stmt.emitAll]
    exact (Stmt.emit_within h s).bind fun _ => Stmt.emitAll_within h rest

theorem Chain.emit_within (h : ∀ e, Within (lower e) (lower' e)) : ∀ chain : Chain,
    Within (chain.emit table lower) (chain.emit table lower')
  | .done => .refl _
  | .otherwise body => by
    rw [Chain.emit, Chain.emit]
    exact .after _ fun _ => (Stmt.emitAll_within h body).bind fun _ => .refl _
  | .branch cond body rest => by
    rw [Chain.emit, Chain.emit]
    exact (h cond).bind fun _ => .after _ fun _ => .after _ fun _ => .after _ fun _ =>
      (Stmt.emitAll_within h body).bind fun _ => .after _ fun _ => .after _ fun _ =>
        .after _ fun _ => .after _ fun _ => .after _ fun _ =>
          (Chain.emit_within h rest).bind fun _ => .refl _

end

/-- The same for all functions of a program. Induction on them. -/
theorem FunDecl.emitAll_within (h : ∀ e, Within (lower e) (lower' e)) (fs : List FunDecl)
    (bc : Bytecode) :
    Within (FunDecl.emitAll table lower bc fs) (FunDecl.emitAll table lower' bc fs) := by
  induction fs generalizing bc with
  | nil => exact .refl _
  | cons f rest ih =>
    rw [FunDecl.emitAll, FunDecl.emitAll]
    split
    · exact .refl _
    · have hbody : Within (f.draft table lower) (f.draft table lower') :=
        .after _ fun _ => .after _ fun _ => (Stmt.emitAll_within h f.body).bind fun _ => .refl _
      have hwhole : Within (f.emit table lower) (f.emit table lower') := hbody.bind fun _ => .refl _
      exact hwhole.bind fun b => ih (bc.insert b)

end Statements

end Within

/-- A program for which some depth suffices gets the same from every larger one. -/
theorem Program.emit_within (p : Program) (table : TypeTable) {depth depth' : Nat}
    (hle : depth ≤ depth') : Within (p.emit table depth) (p.emit table depth') :=
  .after _ fun _ => FunDecl.emitAll_within (Expr.emit_within hle) p.functions .empty

/-- Generation of a program ends with a result. -/
def Generator.Emits (table : TypeTable) (g : Generator) (p : Program)
    (result : Except LoweringError Bytecode) : Prop :=
  ∃ depth g', p.emit table depth g = some (result, g')

/-- Whatever the generator has in hand, generation ends with a result exactly if lowering computes
this result without meeting its bound. -/
theorem Generator.emits_iff {table : TypeTable} {g : Generator} {p : Program}
    {result : Except LoweringError Bytecode} :
    g.Emits table p result ↔ result = p.lower table ∧ ¬Endless (p.lower table) := by
  constructor
  · rintro ⟨depth, g', hemit⟩
    -- The bound of lowering is added to the depth.
    have hmore := p.emit_within table (Nat.le_add_right depth p.types.length) g _ hemit
    have hfollows := p.emit_follows table (Nat.le_add_left p.types.length depth) g
    have hend : ¬Endless (p.lower table) := by
      intro hend
      rw [hfollows.eq_none hend] at hmore
      cases hmore
    obtain ⟨g'', hlower⟩ := hfollows.exists_outcome hend
    rw [hlower] at hmore
    cases hmore
    exact ⟨rfl, hend⟩
  · rintro ⟨rfl, hend⟩
    obtain ⟨g', hlower⟩ := (p.emit_follows table (Nat.le_refl _) g).exists_outcome hend
    exact ⟨p.types.length, g', hlower⟩

end RecordMachine
