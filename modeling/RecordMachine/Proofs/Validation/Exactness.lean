import Mathlib.Data.List.Nodup
import RecordMachine.Validation

/-!
# Which defects are reported

What can be wrong with an instruction is said here without any order of checks (`Instruction.Flaw`):
its operand is not the one its opcode needs, it jumps to an address that is pending or beyond the
code, or it calls a function that is not there. An instruction has at most one flaw
(`Instruction.Flaw.unique`), and validation finds it (`Instruction.problems_of_flaw`).

A report lists the flaws of all instructions. It has each of them (`Bytecode.mem_defects_iff`) and
comes by them in the order of the functions and, within a function, of the instructions
(`Bytecode.pairwise_defects`), which leaves no room for a second report of the same instruction.
-/

namespace RecordMachine

/-! ## One instruction -/

namespace Instruction

/-- What is wrong with an instruction of a program, in a blueprint of the given length. -/
inductive Flaw (bc : Bytecode) (length : Nat) (i : Instruction) : DefectKind → Prop where
  /-- The operand is missing although the opcode needs one, or it is of another kind. -/
  | operand (hkind : i.operand.map Operand.kind ≠ i.opcode.operandKind) :
    Flaw bc length i (.operandMismatch i.opcode (i.operand.map Operand.kind))
  /-- Where to jump to was left open. -/
  | pending (hop : i.opcode = .jump ∨ i.opcode = .jumpIfFalse)
      (htarget : i.operand = some (.address pendingAddress)) :
    Flaw bc length i .pendingJump
  /-- No instruction is there to jump to. -/
  | beyond {target : Nat} (hop : i.opcode = .jump ∨ i.opcode = .jumpIfFalse)
      (htarget : i.operand = some (.address target)) (hset : target ≠ pendingAddress)
      (hlength : length ≤ target) :
    Flaw bc length i (.jumpOutOfBounds target length)
  /-- No blueprint has the name of the function to call. -/
  | callee {name : String} (hop : i.opcode = .call) (hname : i.operand = some (.name name))
      (hunknown : name ∉ bc.names) :
    Flaw bc length i (.unknownFunction name)

variable {bc : Bytecode} {length : Nat} {i : Instruction}

/-- A jump to an address has the operand that its opcode needs. -/
theorem operand_fits_of_jump {target : Nat} (hop : i.opcode = .jump ∨ i.opcode = .jumpIfFalse)
    (htarget : i.operand = some (.address target)) :
    i.operand.map Operand.kind = i.opcode.operandKind := by
  rw [htarget]
  rcases hop with hop | hop <;> rw [hop] <;> rfl

/-- A call of a name has the operand that its opcode needs. -/
theorem operand_fits_of_call {name : String} (hop : i.opcode = .call)
    (hname : i.operand = some (.name name)) :
    i.operand.map Operand.kind = i.opcode.operandKind := by
  rw [hname, hop]
  rfl

/-- A jump is an instruction with the opcode of one and with an address. -/
theorem jumpTarget?_eq_some_iff {target : Nat} :
    i.jumpTarget? = some target ↔
      (i.opcode = .jump ∨ i.opcode = .jumpIfFalse) ∧ i.operand = some (.address target) := by
  constructor
  · intro h
    unfold jumpTarget? at h
    split at h
    · next hop htarget =>
      cases h
      exact ⟨.inl hop, htarget⟩
    · next hop htarget =>
      cases h
      exact ⟨.inr hop, htarget⟩
    · cases h
  · rintro ⟨hop | hop, htarget⟩ <;> simp [jumpTarget?, hop, htarget]

/-- What validation finds wrong with an instruction is a flaw. -/
theorem flaw_of_mem_problems {kind : DefectKind} (h : kind ∈ i.problems bc length) :
    i.Flaw bc length kind := by
  unfold problems at h
  dsimp only at h
  -- With the wrong operand nothing else is looked at; with the right one, jumps and calls are.
  split at h
  · rcases List.mem_append.1 h with hjump | hcall
    · unfold jumpProblems at hjump
      split at hjump
      · cases hjump
      · next target htarget =>
        obtain ⟨hop, hoperand⟩ := jumpTarget?_eq_some_iff.1 htarget
        split at hjump
        · next hpending =>
          rw [List.mem_singleton.1 hjump]
          exact .pending hop (hpending ▸ hoperand)
        · next hset =>
          split at hjump
          · next hlength =>
            rw [List.mem_singleton.1 hjump]
            exact .beyond hop hoperand hset hlength
          · cases hjump
    · unfold callProblems at hcall
      split at hcall
      · next name hop hname =>
        split at hcall
        · cases hcall
        · next hunknown =>
          rw [List.mem_singleton.1 hcall]
          exact .callee hop hname (fun hmem => hunknown (Bytecode.contains_iff.2 hmem))
      · cases hcall
  · next hkind =>
    rw [List.mem_singleton.1 h]
    exact .operand hkind

/-- A call is no jump, so that no instruction is reported as both. -/
theorem jumpProblems_of_call (hop : i.opcode = .call) : i.jumpProblems length = [] := by
  simp [jumpProblems, jumpTarget?, hop]

theorem callProblems_of_jump (hop : i.opcode = .jump ∨ i.opcode = .jumpIfFalse) :
    i.callProblems bc = [] := by
  rcases hop with hop | hop <;> simp [callProblems, hop]

/-- Validation finds the flaw of an instruction, and nothing else is wrong with it. -/
theorem problems_of_flaw {kind : DefectKind} (h : i.Flaw bc length kind) :
    i.problems bc length = [kind] := by
  unfold problems
  cases h with
  | operand hkind => exact if_neg hkind
  | pending hop htarget =>
    have hjump := jumpTarget?_eq_some_iff.2 ⟨hop, htarget⟩
    rw [if_pos (operand_fits_of_jump hop htarget), callProblems_of_jump hop, List.append_nil]
    simp [jumpProblems, hjump]
  | @beyond target hop htarget hset hlength =>
    have hjump := jumpTarget?_eq_some_iff.2 ⟨hop, htarget⟩
    rw [if_pos (operand_fits_of_jump hop htarget), callProblems_of_jump hop, List.append_nil]
    simp [jumpProblems, hjump, hset, hlength]
  | @callee name hop hname hunknown =>
    have hcontains : bc.contains name ≠ true := fun h => hunknown (Bytecode.contains_iff.1 h)
    rw [if_pos (operand_fits_of_call hop hname), jumpProblems_of_call hop, List.nil_append]
    simp [callProblems, hop, hname, hcontains]

/-- An instruction has at most one flaw. -/
theorem Flaw.unique {kind kind' : DefectKind} (h : i.Flaw bc length kind)
    (h' : i.Flaw bc length kind') : kind = kind' := by
  have hfound : [kind] = [kind'] := (problems_of_flaw h).symm.trans (problems_of_flaw h')
  exact (List.cons.inj hfound).1

theorem mem_problems_iff {kind : DefectKind} :
    kind ∈ i.problems bc length ↔ i.Flaw bc length kind := by
  refine ⟨flaw_of_mem_problems, fun h => ?_⟩
  rw [problems_of_flaw h]
  exact List.mem_singleton.2 rfl

/-- There is never a second problem with an instruction. -/
theorem pairwise_problems (R : DefectKind → DefectKind → Prop) :
    (i.problems bc length).Pairwise R := by
  cases h : i.problems bc length with
  | nil => exact .nil
  | cons kind rest =>
    have hflaw : i.Flaw bc length kind := flaw_of_mem_problems (h ▸ List.mem_cons_self)
    rw [← h, problems_of_flaw hflaw]
    exact List.pairwise_singleton R kind

end Instruction

/-! ## One function -/

namespace Blueprint

variable {bc : Bytecode} {b : Blueprint}

/-- The defects of a function are the flaws of its instructions, with their indices. -/
theorem mem_defects_iff {d : Defect} :
    d ∈ b.defects bc ↔
      d.function = b.name ∧ ∃ i, b.code[d.index]? = some i ∧ i.Flaw bc b.code.size d.kind := by
  unfold defects
  rw [List.mem_flatMap]
  constructor
  · rintro ⟨⟨i, index⟩, hmem, hd⟩
    obtain ⟨kind, hkind, rfl⟩ := List.mem_map.1 hd
    rw [List.mem_zipIdx_iff_getElem?, Array.getElem?_toList] at hmem
    exact ⟨rfl, i, hmem, Instruction.mem_problems_iff.1 hkind⟩
  · rintro ⟨hfunction, i, hi, hflaw⟩
    refine ⟨(i, d.index), ?_, ?_⟩
    · rw [List.mem_zipIdx_iff_getElem?, Array.getElem?_toList]
      exact hi
    · apply List.mem_map.2
      refine ⟨d.kind, Instruction.mem_problems_iff.2 hflaw, ?_⟩
      rw [← hfunction]

/-- The defects of a function are reported in the order of its instructions. -/
theorem pairwise_defects : (b.defects bc).Pairwise fun d e => d.index < e.index := by
  unfold defects
  rw [List.pairwise_flatMap]
  refine ⟨?_, ?_⟩
  · intro a _
    exact List.pairwise_map.2 (Instruction.pairwise_problems _)
  · -- All defects of one instruction have its index, and indices grow along the code.
    have hindices : (b.code.toList.zipIdx).Pairwise fun x y => x.2 < y.2 := by
      have hrange := List.pairwise_lt_range' (s := 0) (n := b.code.toList.length) 1
      rw [← List.zipIdx_map_snd 0 b.code.toList] at hrange
      exact List.pairwise_map.1 hrange
    apply hindices.imp
    intro x y hlt d hd e he
    obtain ⟨_, _, rfl⟩ := List.mem_map.1 hd
    obtain ⟨_, _, rfl⟩ := List.mem_map.1 he
    exact hlt

end Blueprint

/-! ## The whole program -/

namespace Bytecode

variable {bc : Bytecode}

/-- One defect comes before another: its function does, or it is in the same function at an earlier
instruction. -/
def Precedes (bc : Bytecode) (d e : Defect) : Prop :=
  bc.names.idxOf d.function < bc.names.idxOf e.function ∨
    (d.function = e.function ∧ d.index < e.index)

/-- The defects of a program are those of its functions. -/
theorem mem_defects_iff {d : Defect} :
    d ∈ bc.defects ↔ ∃ b ∈ bc.blueprints, d.function = b.name ∧
      ∃ i, b.code[d.index]? = some i ∧ i.Flaw bc b.code.size d.kind := by
  unfold defects
  simp only [List.mem_flatMap, Blueprint.mem_defects_iff]

/-- The place of a blueprint is that of its name, since no other one has this name. -/
theorem pairwise_idxOf_name :
    bc.blueprints.Pairwise fun b c => bc.names.idxOf b.name < bc.names.idxOf c.name := by
  rw [List.pairwise_iff_getElem]
  intro j k hj hk hlt
  -- The names are in the order of the blueprints, and all different.
  have hplace : ∀ n (hn : n < bc.blueprints.length),
      bc.names.idxOf (bc.blueprints.get ⟨n, hn⟩).name = n := by
    intro n hn
    have hlength : n < bc.names.length := by simpa [names] using hn
    have hname : (bc.blueprints.get ⟨n, hn⟩).name = bc.names.get ⟨n, hlength⟩ := by simp [names]
    rw [hname]
    exact List.Nodup.idxOf_getElem bc.distinct n hlength
  have hleft := hplace j hj
  have hright := hplace k hk
  simp only [List.get_eq_getElem] at hleft hright
  omega

/-- Defects are reported in the order of the functions, and then of the instructions. -/
theorem pairwise_defects : bc.defects.Pairwise bc.Precedes := by
  unfold defects
  rw [List.pairwise_flatMap]
  refine ⟨?_, ?_⟩
  · intro b _
    have hfunction : ∀ d ∈ b.defects bc, d.function = b.name :=
      fun d hd => (Blueprint.mem_defects_iff.1 hd).1
    apply Blueprint.pairwise_defects.imp_of_mem
    intro d e hd he hlt
    exact .inr ⟨(hfunction d hd).trans (hfunction e he).symm, hlt⟩
  · apply pairwise_idxOf_name.imp
    intro b c hlt d hd e he
    left
    rw [(Blueprint.mem_defects_iff.1 hd).1, (Blueprint.mem_defects_iff.1 he).1]
    exact hlt

theorem not_precedes_self (d : Defect) : ¬bc.Precedes d d := by
  unfold Precedes
  omega

/-- So none is reported twice. -/
theorem nodup_defects : bc.defects.Nodup := by
  apply pairwise_defects.imp
  rintro d e hprecedes rfl
  exact not_precedes_self d hprecedes

/-- Blueprints of one name are one blueprint. -/
theorem eq_of_name_eq {b c : Blueprint} (hb : b ∈ bc.blueprints) (hc : c ∈ bc.blueprints)
    (hname : b.name = c.name) : b = c :=
  List.inj_on_of_nodup_map bc.distinct hb hc hname

/-- What is reported of a flawed instruction is its flaw, once. -/
theorem filter_defects {b : Blueprint} (hb : b ∈ bc.blueprints) {index : Nat} {i : Instruction}
    (hi : b.code[index]? = some i) {kind : DefectKind} (hflaw : i.Flaw bc b.code.size kind) :
    bc.defects.filter (fun d => d.function = b.name ∧ d.index = index)
      = [⟨b.name, index, kind⟩] := by
  -- Both lists have no duplicates, and one that is a permutation of a single defect is this defect.
  rw [← List.perm_singleton,
    List.perm_ext_iff_of_nodup (nodup_defects.filter _) (List.nodup_singleton _)]
  intro d
  simp only [List.mem_filter, List.mem_singleton, decide_eq_true_eq]
  constructor
  · rintro ⟨hmem, hfunction, hindex⟩
    obtain ⟨c, hc, hname, i', hi', hflaw'⟩ := mem_defects_iff.1 hmem
    obtain rfl : c = b := eq_of_name_eq hc hb (hname.symm.trans hfunction)
    rw [hindex, hi] at hi'
    cases hi'
    rw [hflaw.unique hflaw', ← hfunction, ← hindex]
  · rintro rfl
    exact ⟨mem_defects_iff.2 ⟨b, hb, rfl, i, hi, hflaw⟩, rfl, rfl⟩

/-- A program is valid exactly if no instruction has a flaw. -/
theorem isValid_iff :
    bc.isValid = true ↔
      ∀ b ∈ bc.blueprints, ∀ i ∈ b.code, ∀ kind, ¬i.Flaw bc b.code.size kind := by
  unfold isValid
  rw [List.isEmpty_iff, List.eq_nil_iff_forall_not_mem]
  constructor
  · intro hnone b hb i hi kind hflaw
    obtain ⟨index, hindex⟩ := Array.mem_iff_getElem?.1 hi
    exact hnone ⟨b.name, index, kind⟩ (mem_defects_iff.2 ⟨b, hb, rfl, i, hindex, hflaw⟩)
  · intro hsound d hd
    obtain ⟨b, hb, _, i, hi, hflaw⟩ := mem_defects_iff.1 hd
    exact hsound b hb i (Array.mem_of_getElem? hi) d.kind hflaw

/-- Validation reports exactly the flawed instructions. For each of them there is one defect, with
the flaw as its kind; every defect is that of a flawed instruction; the defects stand in the order
of the functions and then of the instructions; and a program is valid exactly if no instruction has
a flaw. -/
theorem defects_exact (bc : Bytecode) :
    (∀ b ∈ bc.blueprints, ∀ index i kind, b.code[index]? = some i → i.Flaw bc b.code.size kind →
      bc.defects.filter (fun d => d.function = b.name ∧ d.index = index)
        = [⟨b.name, index, kind⟩]) ∧
    (∀ d ∈ bc.defects, ∃ b ∈ bc.blueprints, d.function = b.name ∧
      ∃ i, b.code[d.index]? = some i ∧ i.Flaw bc b.code.size d.kind) ∧
    bc.defects.Pairwise bc.Precedes ∧
    (bc.isValid = true ↔
      ∀ b ∈ bc.blueprints, ∀ i ∈ b.code, ∀ kind, ¬i.Flaw bc b.code.size kind) :=
  ⟨fun _ hb _ _ _ hi hflaw => filter_defects hb hi hflaw, fun _ hd => mem_defects_iff.1 hd,
    pairwise_defects, isValid_iff⟩

/-- Two functions with a flaw of each kind. The call of the second function is none, although it
comes later. -/
def flawed : Bytecode :=
  .ofList
    [⟨"main", 0, #[.jump pendingAddress, .call "tail", ⟨.load, some (.name "x"), none⟩,
        .call "missing"]⟩,
      ⟨"tail", 0, #[.jumpIfFalse 1, ⟨.jump, none, none⟩, .jump 3]⟩]

/-- All flaws of the two functions are reported in order, and each is the only report of its
instruction. -/
theorem defects_exact_flawed :
    flawed.defects =
      [⟨"main", 0, .pendingJump⟩, ⟨"main", 2, .operandMismatch .load (some .name)⟩,
        ⟨"main", 3, .unknownFunction "missing"⟩, ⟨"tail", 1, .operandMismatch .jump none⟩,
        ⟨"tail", 2, .jumpOutOfBounds 3 3⟩] ∧
    ¬(∀ b ∈ flawed.blueprints, ∀ i ∈ b.code, ∀ kind, ¬i.Flaw flawed b.code.size kind) := by
  refine ⟨by decide, ?_⟩
  rw [← (defects_exact flawed).2.2.2]
  decide

end Bytecode

end RecordMachine
