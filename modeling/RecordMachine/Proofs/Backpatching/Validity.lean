import RecordMachine.Proofs.Discipline.Lowered
import RecordMachine.Proofs.Generator.Agreement
import RecordMachine.Toolchain

/-!
# Validity of generated code

Compiled functions are well-formed before any run: every instruction has the operand that its opcode
needs, every jump leads to an instruction, and every function that is called was listed in the table
(`FunDecl.wellFormed_of_lower`). These are facts about the marks of the code, which every index has,
also one that no run reaches.

So the only defect that validation can find is a call of a function that the table lists and the
program does not declare, and the table of the program itself has no such function. In particular no
jump is left open, which makes the history of generation settled: each forward jump is patched once.
-/

namespace RecordMachine

/-! ## Instructions -/

/-- An instruction of a blueprint of the given length is well-formed, as far as it can be said
without the other blueprints. -/
structure Instruction.WellFormed (arity : String → Option Nat) (length : Nat) (i : Instruction) :
    Prop where
  operand : i.operand.map Operand.kind = i.opcode.operandKind
  target : ∀ target, i.jumpTarget? = some target → target < length
  callee : ∀ name, i.opcode = .call → i.operand = some (.name name) → (arity name).isSome

/-- Every instruction of a compiled function is well-formed. -/
theorem FunDecl.wellFormed_of_lower {f : FunDecl} {table : TypeTable} {types : List TypeDecl}
    {b : Blueprint} (h : f.lower table types = .ok b) {index : Nat} {i : Instruction}
    (hi : b.code[index]? = some i) : i.WellFormed table.arity? b.code.size := by
  obtain ⟨marks, hbound, _, hsuits⟩ := FunDecl.exists_marking h
  have hlist : b.code.toList[index]? = some i := by
    rw [Array.getElem?_toList]
    exact hi
  obtain ⟨k, _, hfits⟩ := hsuits index i hlist
  refine ⟨hfits.operand, ?_, hfits.known⟩
  intro target htarget
  -- A target is marked, and only indices of the code are.
  obtain ⟨k', hk', _⟩ := hfits.flow target (Instruction.mem_successors htarget _)
  apply hbound
  rw [hk']
  rfl

/-- In code that is not too long, all that can be wrong with a well-formed instruction is that it
calls a function of which there is no blueprint. -/
theorem Instruction.WellFormed.problem {arity : String → Option Nat} {length : Nat}
    {i : Instruction}
    (h : i.WellFormed arity length) (hlength : length < pendingAddress) {bc : Bytecode}
    {kind : DefectKind} (hkind : kind ∈ i.problems bc length) :
    ∃ name, kind = .unknownFunction name ∧ (arity name).isSome ∧ bc.contains name = false := by
  unfold problems at hkind
  rw [if_pos h.operand, List.mem_append] at hkind
  rcases hkind with hjump | hcall
  · unfold jumpProblems at hjump
    split at hjump
    · cases hjump
    · next target htarget =>
      -- The target is within the code, so it is neither pending nor out of range.
      have hlt := h.target target htarget
      rw [if_neg (by omega), if_neg (by omega)] at hjump
      cases hjump
  · unfold callProblems at hcall
    split at hcall
    · next name hopcode hoperand =>
      split at hcall
      · cases hcall
      · next habsent =>
        exact ⟨name, List.mem_singleton.1 hcall, h.callee name hopcode hoperand,
          Bool.not_eq_true _ ▸ habsent⟩
    · cases hcall

/-- No jump of a compiled function is open: its target is an index of the code, and the pending
address is behind all of them. -/
theorem FunDecl.openAt_eq_false {f : FunDecl} {table : TypeTable} {types : List TypeDecl}
    {b : Blueprint} (h : f.lower table types = .ok b) (hshort : b.code.size < pendingAddress)
    (index : Nat) : b.openAt index = false := by
  unfold Blueprint.openAt
  cases hi : b.code[index]? with
  | none => rfl
  | some i =>
    have hne : i.jumpTarget? ≠ some pendingAddress := by
      intro htarget
      have hlt := (FunDecl.wellFormed_of_lower h hi).target _ htarget
      omega
    exact decide_eq_false hne

/-! ## Programs -/

namespace Program

variable {p : Program} {table : TypeTable} {bc : Bytecode}

/-- Whatever it has in hand, a generator with the record types of a program writes the functions of
the program by edits in order that leave no jump open. -/
theorem settled_of_lower (hlower : p.lower table = .ok bc)
    (hshort : ∀ b ∈ bc.blueprints, b.code.size < pendingAddress) {depth : Nat}
    (hdepth : p.types.length ≤ depth) {g : Generator} (hg : g.types = p.types) :
    List.Forall₂ (fun f b => ∃ g', f.draft table (Expr.emit table depth) g = some (.ok (), g') ∧
        g'.blueprint = b ∧ Blueprint.replay? ⟨f.name, f.params.length, #[]⟩ g'.edits = some b ∧
        Settled ⟨f.name, f.params.length, #[]⟩ g'.edits)
      p.functions bc.blueprints := by
  have hall := (List.forall₂_and_left _ _).2 ⟨hshort, (lower_forall₂ hlower).flip⟩
  refine hall.flip.imp ?_
  rintro f b ⟨hb, hf⟩
  rw [← hg] at hdepth hf
  -- What the generator writes is what lowering computes, by edits in order.
  have hfollows := f.draft_follows table g hdepth
  rw [hf] at hfollows
  obtain ⟨_, g', hdraft, hblueprint, _, hexact⟩ := hfollows
  exact ⟨g', hdraft, hblueprint, hexact.replay?_eq,
    hexact.settled hb (FunDecl.openAt_eq_false hf hb)⟩

/-- The defects of a compiled program are calls of functions that the table lists and the program
does not declare. -/
theorem defect_of_lower (hlower : p.lower table = .ok bc)
    (hshort : ∀ b ∈ bc.blueprints, b.code.size < pendingAddress) {defect : Defect}
    (hdefect : defect ∈ bc.defects) :
    ∃ name, defect.kind = .unknownFunction name ∧ (table.arity? name).isSome ∧
      name ∉ p.functions.map FunDecl.name := by
  unfold Bytecode.defects at hdefect
  obtain ⟨b, hb, hdefect⟩ := List.mem_flatMap.1 hdefect
  obtain ⟨⟨i, index⟩, hi, hdefect⟩ := List.mem_flatMap.1 hdefect
  obtain ⟨kind, hkind, rfl⟩ := List.mem_map.1 hdefect
  obtain ⟨f, _, hf⟩ := exists_of_mem_blueprints hlower hb
  have hget : b.code[index]? = some i := by
    rw [← Array.getElem?_toList]
    exact List.mem_zipIdx_iff_getElem?.1 hi
  obtain ⟨name, hname, hlisted, habsent⟩ :=
    (FunDecl.wellFormed_of_lower hf hget).problem (hshort b hb) hkind
  refine ⟨name, hname, hlisted, ?_⟩
  rw [← names_of_lower hlower, ← Bytecode.contains_iff, habsent]
  exact Bool.false_ne_true

/-- With the table of the program itself there is nothing to find. -/
theorem isValid_of_lower (hlower : p.lower (.ofProgram p) = .ok bc)
    (hshort : ∀ b ∈ bc.blueprints, b.code.size < pendingAddress) : bc.isValid = true := by
  unfold Bytecode.isValid
  rw [List.isEmpty_iff, List.eq_nil_iff_forall_not_mem]
  intro defect hdefect
  obtain ⟨name, _, hlisted, habsent⟩ := defect_of_lower hlower hshort hdefect
  rw [TypeTable.arity?_ofProgram (nodup_of_lower hlower), Option.isSome_map] at hlisted
  obtain ⟨f, hf⟩ := Option.isSome_iff_exists.1 hlisted
  have hname : f.name = name := eq_of_beq (List.find?_some hf :)
  apply habsent
  rw [← hname]
  exact List.mem_map_of_mem (List.mem_of_find?_eq_some hf)

theorem compile_of_error {e : LoweringError} (h : p.lower table = .error e) :
    (p.compile table).1 = .error (.lowering e) := by
  unfold lower at h
  unfold compile
  split at h
  · cases h
  · next heq =>
    cases h
    rw [heq]

/-- Compiling returns the bytecode that lowering gives, if validation finds nothing in it. -/
theorem compile_of_isValid (h : p.lower table = .ok bc) (hvalid : bc.isValid = true) :
    (p.compile table).1 = .ok bc := by
  unfold lower at h
  unfold compile
  split at h
  · next heq =>
    cases h
    rw [heq]
    simp only [Bytecode.check, hvalid, if_true]
  · cases h

/-- Generated code is structurally valid, and its jumps are patched exactly. Whatever it has in
hand, a generator makes of a function what lowering computes, or does not come to an end where
lowering meets its bound. If no function grows to the pending address: every patch that the
generator makes finds a jump whose target is open, every open jump that it writes is patched exactly
once, and the only defects that validation can find are calls of functions that the table lists but
the program does not declare. With the table of the program there are none, and compilation never
fails for invalid bytecode. -/
theorem backpatching_exact
    (hshort : ∀ bc, p.lower table = .ok bc → ∀ b ∈ bc.blueprints, b.code.size < pendingAddress) :
    (∀ (f : FunDecl) (depth : Nat) (g : Generator), p.types.length ≤ depth → g.types = p.types →
      (¬Endless (f.lower table p.types) →
        ∃ g', f.emit table (Expr.emit table depth) g = some (f.lower table p.types, g')) ∧
      (Endless (f.lower table p.types) → f.emit table (Expr.emit table depth) g = none)) ∧
    (∀ bc, p.lower table = .ok bc →
      (∀ (depth : Nat) (g : Generator), p.types.length ≤ depth → g.types = p.types →
        List.Forall₂ (fun f b =>
            ∃ g', f.draft table (Expr.emit table depth) g = some (.ok (), g') ∧ g'.blueprint = b ∧
              Blueprint.replay? ⟨f.name, f.params.length, #[]⟩ g'.edits = some b ∧
              Settled ⟨f.name, f.params.length, #[]⟩ g'.edits)
          p.functions bc.blueprints) ∧
      ∀ defect ∈ bc.defects, ∃ name, defect.kind = .unknownFunction name ∧
        (table.arity? name).isSome ∧ name ∉ p.functions.map FunDecl.name) ∧
    (table = .ofProgram p →
      (∀ bc, p.lower table = .ok bc → bc.isValid = true) ∧
      ∀ defects, (p.compile table).1 ≠ .error (.invalidBytecode defects)) := by
  refine ⟨?_, ?_, ?_⟩
  · intro f depth g hdepth hg
    -- The generator has the outcome of lowering, and none where lowering meets its bound.
    rw [← hg] at hdepth ⊢
    have hfollows := (f.emit_follows table g hdepth).imp fun _ _ _ hpost => hpost.1
    exact ⟨hfollows.exists_outcome, hfollows.eq_none⟩
  · intro bc hlower
    exact ⟨fun depth g hdepth hg => settled_of_lower hlower (hshort bc hlower) hdepth hg,
      fun _ hdefect => defect_of_lower hlower (hshort bc hlower) hdefect⟩
  · rintro rfl
    refine ⟨fun bc hlower => isValid_of_lower hlower (hshort bc hlower), ?_⟩
    intro defects
    -- Without bytecode it is lowering that fails, and with bytecode validation has nothing to say.
    cases hlower : p.lower (.ofProgram p) with
    | ok bc =>
      rw [compile_of_isValid hlower (isValid_of_lower hlower (hshort bc hlower))]
      exact nofun
    | error e =>
      rw [compile_of_error hlower]
      exact nofun

/-- A conditional statement of three branches inside a loop, one branch of which is empty and one of
which holds a counting loop. -/
def nestedMain : FunDecl :=
  .main
    [.whileLoop (.literal (.bool true))
      [.ifChain (.branch (.literal (.bool false)) []
        (.branch (.literal (.bool true))
          [.forLoop "i" (.literal (.int 1)) .upTo (.literal (.int 3)) [.ifChain .done]]
          (.otherwise [.ret none])))]]

/-- The program of that one function. -/
def nested : Program := ⟨[], [nestedMain]⟩

/-- The nested jumps take six patches, each of which finds an open jump, and the bytecode is
valid. -/
theorem backpatching_exact_nested :
    ∃ bc g, nested.lower (.ofProgram nested) = .ok bc ∧
      bc.blueprints.map (fun b => b.code.size) = [28] ∧
      nestedMain.draft (.ofProgram nested) (Expr.emit (.ofProgram nested) 0) {} = some (.ok (), g) ∧
      g.edits.filter (fun e => !(e matches .emit _))
        = [.patch 3 5, .patch 12 19, .patch 6 21, .patch 4 23, .patch 20 23, .patch 1 25] ∧
      Settled ⟨"main", 0, #[]⟩ g.edits ∧ bc.isValid = true := by
  have hlower : ∃ bc, nested.lower (.ofProgram nested) = .ok bc ∧
      bc.blueprints.map (fun b => b.code.size) = [28] := ⟨_, rfl, rfl⟩
  have hdraft : ∃ g,
      nestedMain.draft (.ofProgram nested) (Expr.emit (.ofProgram nested) 0) {} = some (.ok (), g) ∧
      g.edits.filter (fun e => !(e matches .emit _))
        = [.patch 3 5, .patch 12 19, .patch 6 21, .patch 4 23, .patch 20 23, .patch 1 25] :=
    ⟨_, rfl, rfl⟩
  obtain ⟨bc, hlower, hsizes⟩ := hlower
  obtain ⟨g, hgen, hpatches⟩ := hdraft
  have hshort : ∀ bc', nested.lower (.ofProgram nested) = .ok bc' →
      ∀ b ∈ bc'.blueprints, b.code.size < pendingAddress := by
    intro bc' hlower' b hb
    rw [hlower] at hlower'
    cases hlower'
    have hsize : b.code.size ∈ bc.blueprints.map (fun b => b.code.size) := List.mem_map_of_mem hb
    rw [hsizes, List.mem_singleton] at hsize
    rw [hsize]
    decide
  -- The generator whose edits were listed is the one of which the theorem speaks, as it is a
  -- function.
  obtain ⟨_, hall, hown⟩ := backpatching_exact hshort
  obtain ⟨_, _, ⟨g', hgen', _, _, hsettled⟩, _⟩ :=
    List.forall₂_cons_left_iff.1 ((hall bc hlower).1 0 {} (Nat.le_refl 0) rfl)
  cases hgen'.symm.trans hgen
  exact ⟨bc, g, hlower, hsizes, hgen, hpatches, hsettled, (hown rfl).1 bc hlower⟩

end Program

end RecordMachine
