import RecordMachine.Proofs.Generator.Basic

/-!
# What a generator writes

A stage of generation changes much on its way: it opens blocks, writes jumps that lead nowhere yet
and patches them. What it comes to is said by `g.Wrote c scope g'`: behind the code of `g` stands
`c`, `scope` is visible, and the way from `g` to `g'` consists of edits in order. Pieces that are
written one after the other add up (`Generator.Wrote.trans`), and the patches of a statement turn
code with open jumps into code with their targets (`Generator.Wrote.patch`).

From this follow the two forms that write forward jumps. A loop jumps over its body
(`Generator.Wrote.loop`, for both kinds of loops), and a branch of a conditional statement jumps
over its body and its exit (`Generator.Wrote.branch`).
-/

namespace RecordMachine

/-- Edits in order never meet an index without an instruction. -/
theorem Exact.foldl_eq {b b' : Blueprint} {es : List Edit} (h : Exact b es b') :
    es.foldl (fun b e => (b.edit? e).getD b) b = b' := by
  induction h with
  | nil => rfl
  | cons _ hedit _ ih =>
    rw [List.foldl_cons, hedit]
    exact ih

namespace Generator

variable {g mid g' : Generator} {c c' : Code} {scope scope' : Scope}

/-- Edits in order are carried out as they are, none of them is skipped. -/
theorem edit_of_exact {es : List Edit} {b' : Blueprint} (h : Exact g.blueprint es b') :
    g.edit es = { g with blueprint := b', edits := g.edits ++ es } := by
  unfold edit
  rw [h.foldl_eq]

/-- Extending the blueprint and recording it is one and the same edit for each instruction. -/
theorem extend_eq (g : Generator) (c : Code) : g.extend c =
    { g with blueprint := g.blueprint.extend c, edits := g.edits ++ c.map .emit } :=
  edit_of_exact (.emit_all g.blueprint c)

theorem extend_append (g : Generator) (c c' : Code) :
    (g.extend c).extend c' = g.extend (c ++ c') := by
  simp [extend, edit]

@[simp] theorem extend_nil (g : Generator) : g.extend [] = g := by
  simp [extend, edit]

@[simp] theorem offset_extend (g : Generator) (c : Code) :
    (g.extend c).offset = g.offset + c.length := by
  rw [extend_eq]
  exact g.blueprint.offset_extend c

@[simp] theorem scope_extend (g : Generator) (c : Code) : (g.extend c).scope = g.scope := rfl

/-! ## Code and its history -/

/-- `g'` is `g` with `c` behind its code, written by edits in order, and with the given scope. -/
structure Wrote (g : Generator) (c : Code) (scope : Scope) (g' : Generator) : Prop where
  types_eq : g'.types = g.types
  scope_eq : g'.scope = scope
  blueprint_eq : g'.blueprint = g.blueprint.extend c
  history : ∃ es, g'.edits = g.edits ++ es ∧ Exact g.blueprint es g'.blueprint

namespace Wrote

theorem refl (g : Generator) : g.Wrote [] g.scope g where
  types_eq := rfl
  scope_eq := rfl
  blueprint_eq := (Blueprint.extend_nil _).symm
  history := ⟨[], (List.append_nil _).symm, .nil _⟩

/-- What is written later stands behind what was written before. -/
theorem trans (h : g.Wrote c scope mid) (h' : mid.Wrote c' scope' g') :
    g.Wrote (c ++ c') scope' g' := by
  obtain ⟨es, hes, hexact⟩ := h.history
  obtain ⟨es', hes', hexact'⟩ := h'.history
  refine ⟨h'.types_eq.trans h.types_eq, h'.scope_eq, ?_, es ++ es', ?_, hexact.append hexact'⟩
  · rw [h'.blueprint_eq, h.blueprint_eq, Blueprint.extend_append]
  · rw [hes', hes, List.append_assoc]

/-- The offset moves by the length of what was written, whatever was patched on the way. -/
theorem offset_eq (h : g.Wrote c scope g') : g'.offset = g.offset + c.length := by
  unfold Generator.offset
  rw [h.blueprint_eq, Blueprint.offset_extend]

/-- Scopes are no matter of the blueprint. -/
theorem withScope (h : g.Wrote c scope g') (s : Scope) : g.Wrote c s (g'.withScope s) :=
  ⟨h.types_eq, rfl, h.blueprint_eq, h.history⟩

theorem enter (h : g.Wrote c scope g') : g.Wrote c scope.enter g'.enter :=
  ⟨h.types_eq, congrArg Scope.enter h.scope_eq, h.blueprint_eq, h.history⟩

theorem leave (h : g.Wrote c scope g') : g.Wrote c scope.leave g'.leave :=
  ⟨h.types_eq, congrArg Scope.leave h.scope_eq, h.blueprint_eq, h.history⟩

/-- Further edits in order that turn one continuation of `g` into another. -/
theorem edit {es : List Edit} (h : g.Wrote c scope mid)
    (hexact : Exact (g.blueprint.extend c) es (g.blueprint.extend c')) :
    g.Wrote c' scope (mid.edit es) := by
  obtain ⟨es₀, hes₀, hexact₀⟩ := h.history
  rw [← h.blueprint_eq] at hexact
  rw [edit_of_exact hexact]
  refine ⟨h.types_eq, h.scope_eq, rfl, es₀ ++ es, ?_, hexact₀.append hexact⟩
  rw [hes₀, List.append_assoc]

/-- Appending instructions is in order wherever it happens. -/
theorem extend (h : g.Wrote c scope mid) (c' : Code) :
    g.Wrote (c ++ c') scope (mid.extend c') := by
  apply h.edit
  rw [Blueprint.extend_append]
  exact Exact.emit_all _ c'

/-- Patching the open jumps at some indices gives them their target. -/
theorem patch {indices : List Nat} {target : Nat} (h : g.Wrote c scope mid)
    (hfills : Fills target g.offset indices c c') (htarget : target ≤ mid.offset) :
    g.Wrote c' scope (mid.patch indices target) := by
  rw [h.offset_eq] at htarget
  exact h.edit (hfills.exact htarget)

/-! ## Forward jumps -/

/-- A condition, an open jump over a block, and the block. -/
theorem block (h : g.Wrote c scope mid)
    (hbody : (mid.extend [.jumpIfFalse pendingAddress]).enter.Wrote c' scope' g') :
    g.Wrote (c ++ .jumpIfFalse pendingAddress :: c') scope'.leave g'.leave := by
  have hwhole := ((h.extend [.jumpIfFalse pendingAddress]).enter.trans hbody).leave
  rwa [List.append_assoc] at hwhole

/-- The open jump behind a condition gets its target. -/
theorem resolve {exit : Nat} (h : g.Wrote (c ++ .jumpIfFalse pendingAddress :: c') scope mid)
    (target : Nat) (hexit : exit = g.offset + c.length) (htarget : target ≤ mid.offset) :
    g.Wrote (c ++ .jumpIfFalse target :: c') scope (mid.patch [exit] target) := by
  rw [hexit]
  exact h.patch (.single Instruction.isOpen_jumpIfFalse c c') htarget

/-- A loop whose condition and body are written, with `tail` at the end of every round: behind the
jump back comes the landing place, and the jump of the condition is patched to it. -/
theorem loop {test code : Code}
    (hbody : ((g.extend test).extend [.jumpIfFalse pendingAddress]).enter.Wrote code scope mid)
    (tail : Code) :
    let back := mid.leave.extend (tail ++ [.jump g.offset])
    g.Wrote (whileCode g.offset test (code ++ tail)) scope.leave
      ((back.extend [.plain .nop]).patch [(g.extend test).offset] back.offset) := by
  intro back
  have htest : g.Wrote test g.scope (g.extend test) := (refl g).extend test
  have hback : g.Wrote _ scope.leave back := (htest.block hbody).extend (tail ++ [.jump g.offset])
  have hnop := hback.extend [.plain .nop]
  -- The landing place is the last instruction, and the jump back stands before it.
  have hlanding : back.offset
      = g.offset + test.length + 1 + (code ++ tail).length + 1 := by
    rw [hback.offset_eq]
    simp only [List.length_append, List.length_cons, List.length_nil]
    omega
  have hcode : whileCode g.offset test (code ++ tail) = test ++ .jumpIfFalse back.offset ::
      (code ++ (tail ++ [.jump g.offset]) ++ [.plain .nop]) := by
    unfold whileCode
    rw [hlanding]
    simp only [List.append_assoc, List.cons_append, List.nil_append]
  rw [hcode]
  rw [List.append_assoc, List.append_assoc, List.cons_append, ← List.append_assoc code] at hnop
  refine hnop.resolve back.offset (offset_extend g test) ?_
  rw [offset_extend back]
  exact Nat.le_add_right _ _

/-- A branch before those that follow it: its condition leads to `next`, behind its own exit. -/
theorem branch {test code : Code}
    (hbody : ((g.extend test).extend [.jumpIfFalse pendingAddress]).enter.Wrote code scope mid)
    (rest : Chain) {next : Nat}
    (hnext : next = g.offset + test.length + 1 + code.length + (if rest.isDone then 0 else 1)) :
    (mid.leave.extend (rest.exitCode pendingAddress)).offset = next ∧
      g.Wrote (test ++ .jumpIfFalse next :: code ++ rest.exitCode pendingAddress) scope.leave
        ((mid.leave.extend (rest.exitCode pendingAddress)).patch [(g.extend test).offset]
          next) := by
  have htest : g.Wrote test g.scope (g.extend test) := (refl g).extend test
  have hexit := (htest.block hbody).extend (rest.exitCode pendingAddress)
  have hend : (mid.leave.extend (rest.exitCode pendingAddress)).offset = next := by
    rw [hexit.offset_eq, hnext]
    simp only [List.length_append, List.length_cons, Chain.length_exitCode]
    omega
  refine ⟨hend, ?_⟩
  rw [List.append_assoc, List.cons_append] at hexit ⊢
  exact hexit.resolve next (offset_extend g test) (Nat.le_of_eq hend.symm)

end Wrote

/-! ## Where a generator stands -/

/-- The generator is about to write at an index of a function, where a scope is visible. -/
structure At (g : Generator) (ctx : Context) (base : Nat) (scope : Scope) : Prop where
  types_eq : g.types = ctx.types
  name_eq : g.blueprint.name = ctx.function
  offset_eq : g.offset = base
  scope_eq : g.scope = scope

namespace At

variable {ctx : Context} {base : Nat}

/-- Where a generator stands after it has written something: behind it. -/
theorem wrote (h : g.At ctx base scope) (hwrote : g.Wrote c scope' g') :
    g'.At ctx (base + c.length) scope' where
  types_eq := hwrote.types_eq.trans h.types_eq
  name_eq := by
    rw [hwrote.blueprint_eq]
    exact h.name_eq
  offset_eq := by rw [hwrote.offset_eq, h.offset_eq]
  scope_eq := hwrote.scope_eq

theorem wrote_nil (h : g.At ctx base scope) : g.Wrote [] scope g := h.scope_eq ▸ .refl g

theorem wrote_extend (h : g.At ctx base scope) (c : Code) : g.Wrote c scope (g.extend c) :=
  h.wrote_nil.extend c

/-- Appending code that follows from the names alone. -/
theorem extend (h : g.At ctx base scope) (c : Code) :
    (g.extend c).At ctx (base + c.length) scope :=
  h.wrote (h.wrote_extend c)

theorem enter (h : g.At ctx base scope) : g.enter.At ctx base scope.enter :=
  ⟨h.types_eq, h.name_eq, h.offset_eq, congrArg Scope.enter h.scope_eq⟩

end At

end Generator

end RecordMachine
