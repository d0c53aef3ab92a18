import RecordMachine.Proofs.Acceptance.Expression
import RecordMachine.Proofs.Lowering.Blueprints
import RecordMachine.Proofs.Lowering.Scoping

/-!
# Lowering decides well-formedness of programs

Lowering keeps the variables of a function in one list, each with the number of blocks around its
declaration, and drops those of a block when it is closed. `Scope.Shows` relates that list to the
names that are visible lexically; every statement keeps the relation (`StmtCode.shows`). So lowering
a statement decides whether it is well-formed where the names are visible that its scope shows
(`Stmt.code_decides`), and lowering a program whether the program is
(`Program.lower_decides_wellFormed`).
-/

namespace RecordMachine

/-! ## Visible names -/

namespace Scope

variable {scope scope' inner : Scope} {visible : List String}

/-- A name is found exactly if it is bound, whatever the slot is. -/
theorem resolve?_isSome (scope : Scope) (name : String) :
    (scope.resolve? name).isSome ↔ ∃ b ∈ scope.bindings, b.name = name := by
  unfold resolve?
  rw [Option.isSome_map, List.find?_isSome]
  simp

/-- `Scope.Shows` reads the bindings only: the numbers of slots and of open blocks do not matter. -/
theorem Shows.of_bindings (h : scope.Shows visible) (hbindings : scope'.bindings = scope.bindings) :
    scope'.Shows visible := by
  intro name
  rw [← h name, resolve?_isSome, resolve?_isSome, hbindings]

theorem Shows.enter (h : scope.Shows visible) : scope.enter.Shows visible := h.of_bindings rfl

theorem Shows.declare (h : scope.Shows visible) (name : String) :
    (scope.declare name).Shows (name :: visible) := by
  intro other
  rw [resolve?_isSome, List.mem_cons, ← h other, resolve?_isSome]
  show (∃ b ∈ ⟨name, scope.nextSlot, scope.depth⟩ :: scope.bindings, b.name = other) ↔ _
  rw [List.exists_mem_cons_iff, eq_comm]

/-- The variable of a counting loop is visible in it, whether it was before or not. -/
theorem Shows.counter (h : scope.Shows visible) {var : String} {slot : Nat}
    (hcounter : scope.counter var = (slot, inner)) : inner.Shows (var :: visible) := by
  unfold Scope.counter at hcounter
  split at hcounter
  · next hfound =>
    cases hcounter
    have hvar : var ∈ visible := (h var).1 (by rw [hfound]; rfl)
    intro name
    rw [h name, List.mem_cons]
    constructor
    · exact .inr
    · rintro (rfl | hname)
      · exact hvar
      · exact hname
  · cases hcounter
    exact h.declare var

/-- The parameters are the names that are visible where a body begins. -/
theorem shows_ofParams (names : List String) : (ofParams names).Shows names := by
  -- Declaring further names puts them in front of those that are visible already.
  have hfold : ∀ (rest : List String) (scope : Scope) (visible : List String),
      scope.Shows visible → (rest.foldl declare scope).Shows (rest.reverse ++ visible) := by
    intro rest
    induction rest with
    | nil => exact fun _ _ h => h
    | cons name rest ih =>
      intro scope visible h
      rw [List.foldl_cons, List.reverse_cons, List.append_assoc]
      exact ih _ _ (h.declare name)
  have hempty : Scope.Shows {} [] := fun _ => ⟨nofun, nofun⟩
  intro name
  rw [ofParams, hfold names {} [] hempty name, List.append_nil, List.mem_reverse]

end Scope

section Statements

variable {ctx : Context}

/-- A statement keeps the visible names, but for the one that it declares: what its blocks declare
is dropped where they are closed. -/
theorem StmtCode.shows {base : Nat} {scope scope' : Scope} {s : Stmt} {c : Code}
    {visible : List String} (h : StmtCode ctx base scope s c scope') (hord : scope.Orderly)
    (hshows : scope.Shows visible) : scope'.Shows (s.visibleAfter visible) := by
  cases h with
  | declare _ => exact hshows.declare _
  | ifChain hchain => exact hshows.of_bindings (hchain.bindings_eq hord)
  | whileLoop _ hbody =>
    exact hshows.of_bindings (Scope.bindings_leave hord (hbody.grows hord.enter).1)
  | forLoop _ hcounter _ _ hbody =>
    -- The block of the loop holds its variable, which goes with it.
    have hinner := hord.enter.counter hcounter
    have hgrows := Scope.Grows.of_block hinner (hbody.grows hinner.enter).1
    exact hshows.of_bindings
      (Scope.bindings_leave hord ((Scope.Grows.counter hcounter).trans hgrows))
  | assign _ _ => exact hshows
  | retNil => exact hshows
  | ret _ => exact hshows
  | delete _ => exact hshows
  | call _ => exact hshows

mutual

/-- Lowering a statement decides whether it is well-formed. -/
theorem Stmt.code_decides (hacyclic : Acyclic ctx.table ctx.types) :
    ∀ (s : Stmt) {base : Nat} {scope : Scope} {visible : List String}, scope.Orderly →
      scope.Shows visible → Decides (Stmt.code ctx base scope s) (s.WellFormed ctx visible)
        fun e => s.FirstDefect ctx visible e
  | .declare decl, base, scope, visible, hord, hshows => by
    rw [Stmt.code]
    exact (decl.init.code_decides hacyclic hshows).map fun _ _ => ⟨_, rfl⟩
  | .assign [] value, base, scope, visible, hord, hshows => by
    rw [Stmt.code]
    exact .error _
  | .assign (name :: fields) value, base, scope, visible, hord, hshows => by
    rw [Stmt.code]
    exact (value.code_decides hacyclic hshows).bind fun _ _ =>
      (Context.slot_decides hshows name).map fun _ _ => ⟨_, rfl⟩
  | .ifChain chain, base, scope, visible, hord, hshows => by
    rw [Stmt.code]
    exact (Chain.code_decides hacyclic chain hord hshows).map fun _ _ => ⟨_, rfl⟩
  | .whileLoop cond body, base, scope, visible, hord, hshows => by
    rw [Stmt.code]
    exact (cond.code_decides hacyclic hshows).bind fun _ _ =>
      (Stmt.sequenceCode_decides hacyclic body hord.enter hshows.enter).map fun _ _ => ⟨_, rfl⟩
  | .forLoop var start direction stop body, base, scope, visible, hord, hshows => by
    rw [Stmt.code_forLoop]
    -- The bound is evaluated where the counter is already visible, the first value where it is not.
    generalize hcounter : scope.enter.counter var = counter
    obtain ⟨slot, inner⟩ := counter
    have hinner := hord.enter.counter hcounter
    have hvisible := hshows.enter.counter hcounter
    exact (start.code_decides hacyclic hshows.enter).bind fun _ _ =>
      (stop.code_decides hacyclic hvisible).bind fun _ _ =>
        (Stmt.sequenceCode_decides hacyclic body hinner.enter hvisible.enter).map
          fun _ _ => ⟨_, rfl⟩
  | .ret none, base, scope, visible, hord, hshows => by
    rw [Stmt.code]
    exact .ok _
  | .ret (some value), base, scope, visible, hord, hshows => by
    rw [Stmt.code]
    exact (value.code_decides hacyclic hshows).map fun _ _ => ⟨_, rfl⟩
  | .delete name, base, scope, visible, hord, hshows => by
    rw [Stmt.code]
    exact (Context.slot_decides hshows name).map fun _ _ => ⟨_, rfl⟩
  | .call name args, base, scope, visible, hord, hshows => by
    rw [Stmt.code]
    exact ((Expr.call name args).code_decides hacyclic hshows).map fun _ _ => ⟨_, rfl⟩

/-- Statements that follow each other: `StmtCode.shows` gives the names that the next one sees. -/
theorem Stmt.sequenceCode_decides (hacyclic : Acyclic ctx.table ctx.types) :
    ∀ (body : List Stmt) {base : Nat} {scope : Scope} {visible : List String}, scope.Orderly →
      scope.Shows visible → Decides (Stmt.sequenceCode ctx base scope body)
        (Stmt.AllWellFormed ctx visible body) fun e => Stmt.AllFirstDefect ctx visible e body
  | [], base, scope, visible, hord, hshows => by
    rw [Stmt.sequenceCode]
    exact .ok _
  | s :: rest, base, scope, visible, hord, hshows => by
    rw [Stmt.sequenceCode]
    refine (Stmt.code_decides hacyclic s hord hshows).bind ?_
    rintro ⟨first, mid⟩ hs
    -- The scope after the first statement shows `s.visibleAfter visible`, by its shape.
    have hcode := Stmt.shape hs
    exact (Stmt.sequenceCode_decides hacyclic rest (hcode.grows hord).2
      (hcode.shows hord hshows)).map fun _ _ => ⟨_, rfl⟩

/-- The branches of a conditional statement, each of which sees what the statement itself sees. -/
theorem Chain.code_decides (hacyclic : Acyclic ctx.table ctx.types) :
    ∀ (chain : Chain) {base : Nat} {scope : Scope} {visible : List String}, scope.Orderly →
      scope.Shows visible → Decides (Chain.code ctx base scope chain)
        (chain.WellFormed ctx visible) fun e => chain.FirstDefect ctx visible e
  | .done, base, scope, visible, hord, hshows => by
    rw [Chain.code]
    exact .ok _
  | .otherwise body, base, scope, visible, hord, hshows => by
    rw [Chain.code]
    exact (Stmt.sequenceCode_decides hacyclic body hord.enter hshows.enter).map
      fun _ _ => ⟨_, rfl⟩
  | .branch cond body rest, base, scope, visible, hord, hshows => by
    rw [Chain.code_branch]
    refine (cond.code_decides hacyclic hshows).bind fun test _ => ?_
    refine (Stmt.sequenceCode_decides hacyclic body hord.enter hshows.enter).bind ?_
    rintro ⟨c, mid⟩ hbody
    -- What follows is read where the block of this branch is closed again.
    have hgrows := ((Stmt.sequence_shape hbody).grows hord.enter).1
    exact (Chain.code_decides hacyclic rest (Scope.Orderly.of_block hord hgrows)
      (hshows.of_bindings (Scope.bindings_leave hord hgrows))).map fun _ _ => ⟨_, rfl⟩

end

end Statements

/-! ## Functions and programs -/

/-- Lowering a function decides whether its body is well-formed where its parameters are visible. -/
theorem FunDecl.lower_decides {table : TypeTable} {types : List TypeDecl}
    (hacyclic : Acyclic table types) (f : FunDecl) :
    Decides (f.lower table types) (f.WellFormed table types) (f.FirstDefect table types) := by
  unfold FunDecl.lower
  have hparams := Scope.shows_ofParams (f.params.map Param.name)
  have hord := Scope.orderly_ofParams (f.params.map Param.name)
  exact Decides.map (Stmt.sequenceCode_decides hacyclic f.body hord hparams) fun _ _ => ⟨_, rfl⟩

/-- Inserting a blueprint under a new name adds that name and no other one. -/
theorem Bytecode.contains_insert {bc : Bytecode} {b : Blueprint}
    (h : ¬bc.contains b.name = true) (name : String) :
    (bc.insert b).contains name = true ↔ name = b.name ∨ bc.contains name = true := by
  rw [Bytecode.contains_iff, Bytecode.contains_iff,
    Bytecode.blueprints_insert_of_not_contains h, List.map_append, List.mem_append]
  simp [or_comm]

namespace Program

variable {table : TypeTable} {types : List TypeDecl}

/-- The result of lowering functions one after the other. -/
def outcome : Bytecode × Option LoweringError → Except LoweringError Bytecode
  | (bc, none) => .ok bc
  | (_, some e) => .error e

/-- `Program.lower` keeps the code of `lowerAll` only if there was no error. -/
theorem lower_eq_outcome (p : Program) (table : TypeTable) :
    p.lower table = outcome (lowerAll table p.types .empty p.functions) := by
  unfold lower lowering outcome
  rfl

/-- The first function in the form of stages, which `Decides.bind` can take. -/
theorem outcome_lowerAll_cons (bc : Bytecode) (f : FunDecl) (rest : List FunDecl) :
    outcome (lowerAll table types bc (f :: rest)) =
      if bc.contains f.name then .error (.duplicateFunction f.name)
      else f.lower table types >>= fun b => outcome (lowerAll table types (bc.insert b) rest) := by
  rw [lowerAll]
  split
  · rfl
  · cases f.lower table types <;> rfl

/-- Lowering functions after those of the names `seen` decides whether their names are new and
different and each of them is well-formed. -/
theorem lowerAll_decides (hacyclic : Acyclic table types) (fs : List FunDecl) (bc : Bytecode)
    (seen : List String) (hseen : ∀ name, name ∈ seen ↔ bc.contains name = true) :
    Decides (outcome (lowerAll table types bc fs))
      ((∀ f ∈ fs, f.name ∉ seen) ∧ (fs.map FunDecl.name).Nodup ∧
        ∀ f ∈ fs, f.WellFormed table types)
      fun e => FunDecl.AllFirstDefect table types seen e fs := by
  induction fs generalizing bc seen with
  | nil => exact (Decides.ok bc).congr (by simp) fun e => Iff.rfl
  | cons f rest ih =>
    rw [outcome_lowerAll_cons]
    split
    · next hold =>
      have hmem : f.name ∈ seen := (hseen f.name).2 hold
      refine (Decides.error _).congr ?_ ?_
      · simp [hmem]
      · intro e
        simp [FunDecl.AllFirstDefect, hmem]
    · next hnew =>
      have hmem : f.name ∉ seen := fun h => hnew ((hseen f.name).1 h)
      -- The names that the code holds after this function are those before it and its own.
      have hinsert : ∀ b, f.lower table types = .ok b → ∀ name,
          name ∈ f.name :: seen ↔ (bc.insert b).contains name = true := by
        intro b hb name
        have hname := FunDecl.name_of_lower hb
        rw [Bytecode.contains_insert (by rwa [hname]), hname, List.mem_cons, hseen]
      refine ((f.lower_decides hacyclic).bind fun b hb =>
        ih (bc.insert b) (f.name :: seen) (hinsert b hb)).congr ?_ ?_
      · rw [List.map_cons, List.nodup_cons, List.forall_mem_cons, List.forall_mem_cons]
        constructor
        · -- That the rest avoids `f.name :: seen` says both that it avoids `seen` and that `f.name`
          -- is not among its names.
          rintro ⟨hf, hfresh, hnodup, hall⟩
          refine ⟨⟨hmem, fun g hg hin => hfresh g hg (List.mem_cons_of_mem _ hin)⟩,
            ⟨?_, hnodup⟩, hf, hall⟩
          intro hin
          obtain ⟨g, hg, hname⟩ := List.mem_map.1 hin
          exact hfresh g hg (hname ▸ List.mem_cons_self)
        · rintro ⟨⟨_, hfresh⟩, ⟨hother, hnodup⟩, hf, hall⟩
          refine ⟨hf, ?_, hnodup, hall⟩
          intro g hg hin
          rcases List.mem_cons.1 hin with hname | hin
          · exact hother (hname ▸ List.mem_map_of_mem hg)
          · exact hfresh g hg hin
      · intro e
        simp [FunDecl.AllFirstDefect, hmem]

/-- Lowering a program decides whether it is well-formed: no name is seen before its first
function. -/
theorem lower_decides {p : Program} (hacyclic : Acyclic table p.types) :
    Decides (p.lower table) (p.WellFormed table) (p.FirstDefect table) := by
  have hempty : ∀ name, name ∈ ([] : List String) ↔ Bytecode.empty.contains name = true :=
    fun name => ⟨nofun, nofun⟩
  rw [lower_eq_outcome]
  refine (lowerAll_decides hacyclic p.functions .empty [] hempty).congr ?_ fun e => Iff.rfl
  exact ⟨And.right, fun h => ⟨fun _ _ => nofun, h⟩⟩

/-- Lowering succeeds exactly on the well-formed programs, and gives one blueprint for each
function, in the order of the declarations. On any other program it fails with what is wrong
first. -/
theorem lower_decides_wellFormed {p : Program} (hacyclic : Acyclic table p.types) :
    ((∃ bc, p.lower table = .ok bc) ↔ p.WellFormed table) ∧
    (∀ bc, p.lower table = .ok bc → List.Forall₂
      (fun f b => b.name = f.name ∧ b.params = f.params.length) p.functions bc.blueprints) ∧
    (∀ e, p.lower table = .error e ↔ p.FirstDefect table e) ∧
    (¬p.WellFormed table → ∃ e, p.FirstDefect table e ∧ p.lower table = .error e) := by
  have hdecides := lower_decides hacyclic
  refine ⟨hdecides.ok_iff, ?_, hdecides.error_iff, ?_⟩
  · intro bc hlower
    refine (lower_forall₂ hlower).imp ?_
    intro f b hb
    exact ⟨FunDecl.name_of_lower hb, FunDecl.params_of_lower hb⟩
  · intro hnot
    cases hlower : p.lower table with
    | ok bc => exact absurd (hdecides.ok_iff.1 ⟨bc, hlower⟩) hnot
    | error e => exact ⟨e, (hdecides.error_iff e).1 hlower, rfl⟩

/-- Two record types, one of which constructs the other and takes a field from a variable of the
place where it is constructed; that variable is visible at the first place and no longer at the
second. -/
def pairing : Program where
  types :=
    [⟨"Pair", [⟨"left", none, .new "Leaf"⟩, ⟨"right", none, .path ["size"]⟩]⟩,
      ⟨"Leaf", [⟨"value", none, .literal (.int 0)⟩]⟩]
  functions :=
    [.main
      [.ifChain (.branch (.literal (.bool true))
        [.declare ⟨"size", none, .literal (.int 1)⟩, .declare ⟨"first", none, .new "Pair"⟩] .done),
        .declare ⟨"second", none, .new "Pair"⟩]]

/-- What is wrong first is the variable in the second construction. -/
theorem lower_decides_wellFormed_pairing :
    Acyclic (.ofProgram pairing) pairing.types ∧
      pairing.lower (.ofProgram pairing) = .error (.unknownVariable "size" "main") ∧
      pairing.FirstDefect (.ofProgram pairing) (.unknownVariable "size" "main") ∧
      ¬pairing.WellFormed (.ofProgram pairing) := by
  -- The only construction inside another one is that of a leaf in a pair.
  have hedge : ∀ outer inner, Constructs (.ofProgram pairing) pairing.types outer inner →
      outer = "Pair" ∧ inner = "Leaf" := by
    rintro outer inner ⟨decl, ⟨_, hdecl⟩, hinner⟩
    have hname : decl.name = outer := by simpa using List.find?_some hdecl
    have hmem : decl ∈ pairing.types := List.mem_reverse.1 (List.mem_of_find?_eq_some hdecl)
    subst hname
    simp only [pairing, List.mem_cons, List.not_mem_nil, or_false] at hmem
    rcases hmem with rfl | rfl
    · exact ⟨rfl, by simpa [Expr.newTypesAll, Expr.newTypes] using hinner⟩
    · simp [Expr.newTypesAll, Expr.newTypes] at hinner
  -- A cycle would begin at a pair and end at a leaf.
  have hacyclic : Acyclic (.ofProgram pairing) pairing.types := by
    intro type hcycle
    obtain ⟨_, hfirst, _⟩ := Relation.TransGen.head'_iff.1 hcycle
    obtain ⟨_, _, hlast⟩ := Relation.TransGen.tail'_iff.1 hcycle
    have hpair := (hedge _ _ hfirst).1
    have hleaf := (hedge _ _ hlast).2
    rw [hpair] at hleaf
    exact absurd hleaf (by decide)
  have hlower : pairing.lower (.ofProgram pairing) = .error (.unknownVariable "size" "main") := rfl
  obtain ⟨haccepts, _, hdefect, _⟩ := lower_decides_wellFormed hacyclic
  refine ⟨hacyclic, hlower, (hdefect _).1 hlower, ?_⟩
  intro hwf
  obtain ⟨bc, hbc⟩ := haccepts.2 hwf
  rw [hlower] at hbc
  cases hbc

end Program

end RecordMachine
