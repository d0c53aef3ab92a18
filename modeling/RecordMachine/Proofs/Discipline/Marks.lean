import RecordMachine.Proofs.Lowering.Placement
import RecordMachine.Proofs.Lowering.Shape

/-!
# Marks: what is known at an index before a run

A mark says how many operands an activation has when it is about to perform the instruction at an
index, and how many slots it has at least. A marking gives some indices a mark, and an instruction
*fits* it if the operands it takes are there, the slot it loads is there, and wherever it can lead
the marking expects no more than what it leaves (`Instruction.Fits`).

`Marked arity base entry c exit` says that the code `c`, placed at `base`, has marks of its own that
fit whatever else is marked, if `entry` holds before it and `exit` is enough behind it. Pieces of
code that are marked so are put together by `Marked.append`, a loop by `Marked.whileCode`, a branch
by `Marked.branch`. Code that is never left behind its last instruction is `MarkedToEnd`.

The numbers of parameters are those of a table `arity`, as lowering has them.
-/

namespace RecordMachine

/-- The number of operands that an opcode leaves in place of those that it takes. -/
def Opcode.pushes : Opcode → Nat
  | .pop | .store | .jump | .jumpIfFalse | .ret | .write | .free | .setField | .nop => 0
  | .dup | .swap => 2
  | _ => 1

/-- Whether an opcode needs nothing besides its operand and what it takes: no slot, no function and
no certain number of operands. -/
def Opcode.isOrdinary : Opcode → Bool
  | .load | .ret | .call => false
  | _ => true

/-- What an activation has at an index: exactly `depth` operands, and at least `reach` slots. -/
structure Mark where
  depth : Nat
  reach : Nat

/-- What has the mark `k` may go on where `k'` is expected. -/
def Mark.Feeds (k k' : Mark) : Prop := k'.depth = k.depth ∧ k'.reach ≤ k.reach

theorem Mark.Feeds.refl (k : Mark) : k.Feeds k := ⟨rfl, Nat.le_refl _⟩

theorem Mark.Feeds.trans {k mid k' : Mark} (h : k.Feeds mid) (h' : mid.Feeds k') : k.Feeds k' :=
  ⟨h'.1.trans h.1, Nat.le_trans h'.2 h.2⟩

/-! ## Instructions -/

namespace Instruction

/-- The number of operands that an instruction takes; a call takes those of its function. -/
def demand (arity : String → Option Nat) (i : Instruction) : Nat :=
  match i.opcode, i.operand with
  | .call, some (.name name) => (arity name).getD 0
  | op, _ => op.pops

/-- The number of slots that there are at least after an instruction, if there were `reach`. -/
def gain (i : Instruction) (reach : Nat) : Nat :=
  match i.opcode, i.operand with
  | .store, some (.slot slot) => max reach (slot + 1)
  | _, _ => reach

/-- The mark behind an instruction. -/
def after (arity : String → Option Nat) (i : Instruction) (k : Mark) : Mark :=
  ⟨k.depth - i.demand arity + i.opcode.pushes, i.gain k.reach⟩

/-- Where an instruction can lead, if `next` is the index behind it. -/
def successors (i : Instruction) (next : Nat) : List Nat :=
  match i.opcode with
  | .ret => []
  | .jump => i.jumpTarget?.toList
  | _ => next :: i.jumpTarget?.toList

/-- A jump can lead to its target; only a return leads nowhere, and it is no jump. -/
theorem mem_successors {i : Instruction} {target : Nat} (h : i.jumpTarget? = some target)
    (next : Nat) : target ∈ i.successors next := by
  unfold successors
  split
  · next hret =>
    unfold jumpTarget? at h
    rw [hret] at h
    cases h
  · rw [h]
    exact List.mem_singleton_self target
  · rw [h]
    exact List.mem_cons_of_mem next (List.mem_singleton_self target)

end Instruction

/-- Some indices with their marks. -/
abbrev Marking := Nat → Option Mark

/-- What has the mark `k` may go on at `pc`. -/
def Marking.Accepts (marks : Marking) (pc : Nat) (k : Mark) : Prop :=
  ∃ k', marks pc = some k' ∧ k.Feeds k'

theorem Marking.Accepts.of_feeds {marks : Marking} {pc : Nat} {k k' : Mark}
    (h : marks.Accepts pc k') (hk : k.Feeds k') : marks.Accepts pc k := by
  obtain ⟨k₁, hpc, hfeeds⟩ := h
  exact ⟨k₁, hpc, hk.trans hfeeds⟩

/-- The number of operands is exact, so an index has one depth whichever way it is reached. -/
theorem Marking.Accepts.depth_eq {marks : Marking} {pc : Nat} {k k' : Mark}
    (h : marks.Accepts pc k) (hk' : marks pc = some k') : k'.depth = k.depth := by
  obtain ⟨k₁, hk₁, hfeeds⟩ := h
  rw [hk'] at hk₁
  cases hk₁
  exact hfeeds.1

/-- The marks `ms` stand from `base` on. -/
def Marking.Covers (marks : Marking) (base : Nat) (ms : List Mark) : Prop :=
  Along (fun pc k => marks pc = some k) base ms

/-- An instruction finds what it needs where the mark `k` holds. -/
structure Instruction.Applies (arity : String → Option Nat) (i : Instruction) (k : Mark) :
    Prop where
  operand : i.operand.map Operand.kind = i.opcode.operandKind
  enough : i.demand arity ≤ k.depth
  loaded : ∀ slot, i.opcode = .load → i.operand = some (.slot slot) → slot < k.reach
  returned : i.opcode = .ret → k.depth = 1
  known : ∀ name, i.opcode = .call → i.operand = some (.name name) → (arity name).isSome

/-- An instruction at `pc` finds what it needs and leaves what the marking expects. -/
structure Instruction.Fits (arity : String → Option Nat) (marks : Marking) (pc : Nat)
    (i : Instruction) (k : Mark) : Prop extends i.Applies arity k where
  flow : ∀ t ∈ i.successors (pc + 1), marks.Accepts t (i.after arity k)
  /-- Operands are counted on also behind an instruction that never leads there. -/
  level : ∀ k', marks (pc + 1) = some k' → k'.depth = (i.after arity k).depth

/-- Every instruction of `c`, placed at `base`, has a mark that it fits. -/
def Marking.Suits (marks : Marking) (arity : String → Option Nat) (base : Nat) (c : Code) : Prop :=
  Along (fun pc i => ∃ k, marks pc = some k ∧ i.Fits arity marks pc k) base c

namespace Instruction

variable {arity : String → Option Nat} {marks : Marking} {pc : Nat} {i : Instruction} {k : Mark}

/-- Most opcodes need only their operand and enough on the stack. -/
theorem applies_of_isOrdinary (hordinary : i.opcode.isOrdinary = true)
    (hoperand : i.operand.map Operand.kind = i.opcode.operandKind)
    (henough : i.demand arity ≤ k.depth) : i.Applies arity k where
  operand := hoperand
  enough := henough
  loaded := by
    intro _ hload
    rw [hload] at hordinary
    cases hordinary
  returned := by
    intro hret
    rw [hret] at hordinary
    cases hordinary
  known := by
    intro _ hcall
    rw [hcall] at hordinary
    cases hordinary

/-- An instruction that does not jump fits if the index behind it accepts what it leaves. -/
theorem Applies.fits (h : i.Applies arity k) (hstraight : i.jumpTarget? = none)
    (hnext : marks.Accepts (pc + 1) (i.after arity k)) : i.Fits arity marks pc k where
  toApplies := h
  flow := by
    intro t ht
    unfold successors at ht
    rw [hstraight] at ht
    split at ht
    · cases ht
    · cases ht
    · obtain rfl : t = pc + 1 := by simpa using ht
      exact hnext
  level := fun _ hk' => hnext.depth_eq hk'

/-- A return fits at the end, with its value as the only operand. -/
theorem fits_ret (h : k.depth = 1) (hend : marks (pc + 1) = none) :
    (plain .ret).Fits arity marks pc k where
  operand := rfl
  enough := Nat.le_of_eq h.symm
  loaded := fun _ hload => nomatch hload
  returned := fun _ => h
  known := fun _ hcall => nomatch hcall
  flow := fun _ ht => nomatch ht
  level := by
    intro k' hk'
    rw [hend] at hk'
    cases hk'

/-- A jump fits if its target accepts the mark as it is. Nothing flows to the index behind it, where
only the count of operands has to agree. -/
theorem fits_jump {target : Nat} (htarget : marks.Accepts target k)
    (hlevel : ∀ k', marks (pc + 1) = some k' → k'.depth = k.depth) :
    (jump target).Fits arity marks pc k where
  toApplies := applies_of_isOrdinary rfl rfl (Nat.zero_le _)
  flow := by
    intro t ht
    obtain rfl : t = target := by simpa [successors, jump, jumpTarget?] using ht
    exact htarget
  level := hlevel

/-- A conditional jump takes the truth value and goes either way. -/
theorem fits_jumpIfFalse {target depth reach : Nat} (htarget : marks.Accepts target ⟨depth, reach⟩)
    (hnext : marks.Accepts (pc + 1) ⟨depth, reach⟩) :
    (jumpIfFalse target).Fits arity marks pc ⟨depth + 1, reach⟩ where
  toApplies := applies_of_isOrdinary rfl rfl (Nat.le_add_left 1 depth)
  flow := by
    intro t ht
    have hcases : t = pc + 1 ∨ t = target := by
      simpa [successors, jumpIfFalse, jumpTarget?] using ht
    rcases hcases with rfl | rfl
    · exact hnext
    · exact htarget
  level := fun _ hk' => hnext.depth_eq hk'

end Instruction

/-! ## Marked code -/

/-- Code at `base` that can be marked so that `entry` is enough before it and `exit` holds behind
it. -/
def Marked (arity : String → Option Nat) (base : Nat) (entry : Mark) (c : Code) (exit : Mark) :
    Prop :=
  ∃ ms : List Mark, ms.length = c.length ∧ ∀ marks : Marking, marks.Covers base ms →
    marks.Accepts (base + c.length) exit → marks.Accepts base entry ∧ marks.Suits arity base c

/-- Code at `base` that can be marked so that `entry` is enough before it and that is never left
behind its last instruction. -/
def MarkedToEnd (arity : String → Option Nat) (base : Nat) (entry : Mark) (c : Code) : Prop :=
  ∃ ms : List Mark, ms.length = c.length ∧ ∀ marks : Marking, marks.Covers base ms →
    marks (base + c.length) = none → marks.Accepts base entry ∧ marks.Suits arity base c

section Calculus

variable {arity : String → Option Nat} {base : Nat} {entry exit : Mark}

theorem Marked.nil (k : Mark) : Marked arity base k [] k := by
  refine ⟨[], rfl, ?_⟩
  intro marks _ hexit
  exact ⟨hexit, along_nil⟩

/-- Code that follows other code: the marks of the one are those that the other leads to. -/
theorem Marked.append {mid : Mark} {c c' : Code} (h : Marked arity base entry c mid)
    (h' : Marked arity (base + c.length) mid c' exit) : Marked arity base entry (c ++ c') exit := by
  obtain ⟨ms, hlen, hms⟩ := h
  obtain ⟨ms', hlen', hms'⟩ := h'
  refine ⟨ms ++ ms', by rw [List.length_append, List.length_append, hlen, hlen'], ?_⟩
  intro marks hcovers hexit
  obtain ⟨hfirst, hsecond⟩ := along_append.1 hcovers
  rw [hlen] at hsecond
  rw [List.length_append, ← Nat.add_assoc] at hexit
  -- From the end to the start: each piece says what it needs before it.
  obtain ⟨hmid, hsuits'⟩ := hms' marks hsecond hexit
  obtain ⟨hentry, hsuits⟩ := hms marks hfirst hmid
  exact ⟨hentry, along_append.2 ⟨hsuits, hsuits'⟩⟩

/-- The same, where the second piece is not left. -/
theorem Marked.append_end {mid : Mark} {c c' : Code} (h : Marked arity base entry c mid)
    (h' : MarkedToEnd arity (base + c.length) mid c') : MarkedToEnd arity base entry (c ++ c') := by
  obtain ⟨ms, hlen, hms⟩ := h
  obtain ⟨ms', hlen', hms'⟩ := h'
  refine ⟨ms ++ ms', by rw [List.length_append, List.length_append, hlen, hlen'], ?_⟩
  intro marks hcovers hend
  obtain ⟨hfirst, hsecond⟩ := along_append.1 hcovers
  rw [hlen] at hsecond
  rw [List.length_append, ← Nat.add_assoc] at hend
  obtain ⟨hmid, hsuits'⟩ := hms' marks hsecond hend
  obtain ⟨hentry, hsuits⟩ := hms marks hfirst hmid
  exact ⟨hentry, along_append.2 ⟨hsuits, hsuits'⟩⟩

/-- More may be there before the code than it needs, and less may be asked for behind it. -/
theorem Marked.weaken {entry' exit' : Mark} {c : Code} (h : Marked arity base entry c exit)
    (hentry : entry'.Feeds entry) (hexit : exit.Feeds exit') :
    Marked arity base entry' c exit' := by
  obtain ⟨ms, hlen, hms⟩ := h
  refine ⟨ms, hlen, ?_⟩
  intro marks hcovers haccepts
  obtain ⟨hbefore, hsuits⟩ := hms marks hcovers (haccepts.of_feeds hexit)
  exact ⟨hbefore.of_feeds hentry, hsuits⟩

/-- One instruction in front of marked code, which gets the mark `entry` itself. -/
theorem Marked.cons {i : Instruction} {c : Code} (happlies : i.Applies arity entry)
    (hstraight : i.jumpTarget? = none) (h : Marked arity (base + 1) (i.after arity entry) c exit) :
    Marked arity base entry (i :: c) exit := by
  obtain ⟨ms, hlen, hms⟩ := h
  refine ⟨entry :: ms, by rw [List.length_cons, List.length_cons, hlen], ?_⟩
  intro marks hcovers hexit
  obtain ⟨hmark, hcovers⟩ := along_cons.1 hcovers
  rw [List.length_cons, Nat.add_comm c.length, ← Nat.add_assoc] at hexit
  obtain ⟨hnext, hsuits⟩ := hms marks hcovers hexit
  exact ⟨⟨entry, hmark, .refl entry⟩,
    along_cons.2 ⟨⟨entry, hmark, happlies.fits hstraight hnext⟩, hsuits⟩⟩

/-- A return with one operand ends code. -/
theorem markedToEnd_ret {reach : Nat} : MarkedToEnd arity base ⟨1, reach⟩ [.plain .ret] := by
  refine ⟨[⟨1, reach⟩], rfl, ?_⟩
  intro marks hcovers hend
  obtain ⟨hmark, _⟩ := along_cons.1 hcovers
  exact ⟨⟨_, hmark, .refl _⟩, along_cons.2 ⟨⟨_, hmark, Instruction.fits_ret rfl hend⟩, along_nil⟩⟩

/-! ### Loops and branches -/

variable {test body others : Code} {reach reach' : Nat}

/-- A loop: its condition leaves a truth value, and a round leaves at least the slots that were
there. -/
theorem Marked.whileCode (htest : Marked arity base ⟨0, reach⟩ test ⟨1, reach⟩)
    (hbody : Marked arity (base + test.length + 1) ⟨0, reach⟩ body ⟨0, reach'⟩)
    (hreach : reach ≤ reach') :
    Marked arity base ⟨0, reach⟩ (whileCode base test body) ⟨0, reach⟩ := by
  obtain ⟨mt, hlent, hmt⟩ := htest
  obtain ⟨mb, hlenb, hmb⟩ := hbody
  refine ⟨mt ++ ⟨1, reach⟩ :: (mb ++ [⟨0, reach'⟩, ⟨0, reach⟩]), ?_, ?_⟩
  · unfold RecordMachine.whileCode
    simp only [List.length_append, List.length_cons, List.length_nil, hlent, hlenb]
  intro marks hcovers hexit
  obtain ⟨hcovt, hcovers⟩ := along_append.1 hcovers
  obtain ⟨hskip, hcovers⟩ := along_cons.1 hcovers
  obtain ⟨hcovb, hcovers⟩ := along_append.1 hcovers
  obtain ⟨hback, hcovers⟩ := along_cons.1 hcovers
  obtain ⟨hnop, _⟩ := along_cons.1 hcovers
  rw [hlent] at hskip hcovb hback hnop
  rw [hlenb] at hback hnop
  -- Behind the loop is the index after its last instruction, the one that the condition jumps to.
  have hend : base + (RecordMachine.whileCode base test body).length
      = base + test.length + 1 + body.length + 1 + 1 := by
    rw [length_whileCode]
    omega
  rw [hend] at hexit
  -- The marks of the three jumps' surroundings, then the two pieces from the last to the first.
  have hlanding : marks.Accepts (base + test.length + 1 + body.length + 1) ⟨0, reach⟩ :=
    ⟨_, hnop, .refl _⟩
  obtain ⟨hround, hsuitsb⟩ := hmb marks hcovb ⟨_, hback, .refl _⟩
  obtain ⟨hstart, hsuitst⟩ := hmt marks hcovt ⟨_, hskip, .refl _⟩
  have hfitsSkip : (Instruction.jumpIfFalse (base + test.length + 1 + body.length + 1)).Fits arity
      marks (base + test.length) ⟨1, reach⟩ :=
    Instruction.fits_jumpIfFalse hlanding hround
  -- The jump back brings at least the slots that the first round found.
  have hfitsBack : (Instruction.jump base).Fits arity marks (base + test.length + 1 + body.length)
      ⟨0, reach'⟩ :=
    Instruction.fits_jump (hstart.of_feeds ⟨rfl, hreach⟩) fun _ hk' => hlanding.depth_eq hk'
  have hfitsNop : (Instruction.plain .nop).Fits arity marks
      (base + test.length + 1 + body.length + 1) ⟨0, reach⟩ := by
    refine Instruction.Applies.fits ?_ rfl hexit
    exact Instruction.applies_of_isOrdinary rfl rfl (Nat.le_refl 0)
  refine ⟨hstart, along_append.2 ⟨hsuitst, along_cons.2 ⟨⟨_, hskip, hfitsSkip⟩,
    along_append.2 ⟨hsuitsb, along_cons.2 ⟨⟨_, hback, hfitsBack⟩,
      along_cons.2 ⟨⟨_, hnop, hfitsNop⟩, along_nil⟩⟩⟩⟩⟩⟩

/-- The jump over the branches that follow, which expect no more than the landing place does. -/
theorem Chain.suits_exitCode (arity : String → Option Nat) (chain : Chain) (pos landing : Nat)
    (hreach : reach ≤ reach') :
    ∃ ms : List Mark, ms.length = (chain.exitCode landing).length ∧ ∀ marks : Marking,
      marks.Covers pos ms →
      marks.Accepts (pos + (chain.exitCode landing).length) ⟨0, reach⟩ →
      marks.Accepts landing ⟨0, reach⟩ →
        marks.Accepts pos ⟨0, reach'⟩ ∧ marks.Suits arity pos (chain.exitCode landing) := by
  have hfeeds : (⟨0, reach'⟩ : Mark).Feeds ⟨0, reach⟩ := ⟨rfl, hreach⟩
  unfold Chain.exitCode
  split
  · -- The last branch has nothing to jump over, and falls through to the landing place.
    refine ⟨[], rfl, ?_⟩
    intro marks _ hnext _
    exact ⟨hnext.of_feeds hfeeds, along_nil⟩
  · refine ⟨[⟨0, reach'⟩], rfl, ?_⟩
    intro marks hcovers hnext hlanding
    obtain ⟨hmark, _⟩ := along_cons.1 hcovers
    have hfits : (Instruction.jump landing).Fits arity marks pos ⟨0, reach'⟩ :=
      Instruction.fits_jump (hlanding.of_feeds hfeeds) fun _ hk' => hnext.depth_eq hk'
    exact ⟨⟨_, hmark, .refl _⟩, along_cons.2 ⟨⟨_, hmark, hfits⟩, along_nil⟩⟩

/-- A branch and those that follow it: its condition leaves a truth value, and its body at least the
slots that were there. -/
theorem Marked.branch {chain : Chain} {next landing : Nat}
    (htest : Marked arity base ⟨0, reach⟩ test ⟨1, reach⟩)
    (hbody : Marked arity (base + test.length + 1) ⟨0, reach⟩ body ⟨0, reach'⟩)
    (hreach : reach ≤ reach')
    (hnext : next = base + test.length + 1 + body.length + (chain.exitCode landing).length)
    (hothers : Marked arity next ⟨0, reach⟩ others ⟨0, reach⟩)
    (hlanding : landing = next + others.length) :
    Marked arity base ⟨0, reach⟩
      (test ++ .jumpIfFalse next :: (body ++ chain.exitCode landing ++ others)) ⟨0, reach⟩ := by
  obtain ⟨mt, hlent, hmt⟩ := htest
  obtain ⟨mb, hlenb, hmb⟩ := hbody
  obtain ⟨me, hlene, hme⟩ := chain.suits_exitCode arity
    (base + test.length + 1 + body.length) landing hreach
  obtain ⟨mo, hleno, hmo⟩ := hothers
  refine ⟨mt ++ ⟨1, reach⟩ :: (mb ++ me ++ mo), ?_, ?_⟩
  · simp only [List.length_append, List.length_cons, hlent, hlenb, hlene, hleno]
  intro marks hcovers hexit
  obtain ⟨hcovt, hcovers⟩ := along_append.1 hcovers
  obtain ⟨hskip, hcovers⟩ := along_cons.1 hcovers
  obtain ⟨hcovers, hcovo⟩ := along_append.1 hcovers
  obtain ⟨hcovb, hcove⟩ := along_append.1 hcovers
  rw [hlent] at hskip hcovb hcove hcovo
  rw [hlenb] at hcove
  rw [List.length_append, hlenb, hlene, ← Nat.add_assoc, ← hnext] at hcovo
  have hend : base + (test ++ Instruction.jumpIfFalse next ::
      (body ++ chain.exitCode landing ++ others)).length = landing := by
    simp only [List.length_append, List.length_cons]
    omega
  rw [hend] at hexit
  -- From the last piece to the first, each asking the next one what it needs.
  obtain ⟨hfollowing, hsuitso⟩ := hmo marks hcovo (by rw [← hlanding]; exact hexit)
  rw [hnext] at hfollowing
  obtain ⟨hleave, hsuitse⟩ := hme marks hcove hfollowing hexit
  obtain ⟨hinside, hsuitsb⟩ := hmb marks hcovb hleave
  obtain ⟨hstart, hsuitst⟩ := hmt marks hcovt ⟨_, hskip, .refl _⟩
  rw [← hnext] at hfollowing
  have hfits : (Instruction.jumpIfFalse next).Fits arity marks (base + test.length) ⟨1, reach⟩ :=
    Instruction.fits_jumpIfFalse hfollowing hinside
  refine ⟨hstart, along_append.2 ⟨hsuitst, along_cons.2 ⟨⟨_, hskip, hfits⟩, ?_⟩⟩⟩
  refine along_append.2 ⟨along_append.2 ⟨hsuitsb, hsuitse⟩, ?_⟩
  rw [List.length_append, ← Nat.add_assoc, ← hnext]
  exact hsuitso

end Calculus

/-! ## Jumps of marked code -/

/-- No jump leads out of marked code, except to its end. -/
theorem Marked.target_mem {arity : String → Option Nat} {base : Nat} {entry exit : Mark} {c : Code}
    (h : Marked arity base entry c exit) {i : Instruction} (hi : i ∈ c) {target : Nat}
    (htarget : i.jumpTarget? = some target) : base ≤ target ∧ target ≤ base + c.length := by
  obtain ⟨ms, hlen, hms⟩ := h
  -- The marks of the code, the one behind it, and no others.
  let marks : Marking := fun pc => if pc < base then none else (ms ++ [exit])[pc - base]?
  have hmarks : ∀ j, marks (base + j) = (ms ++ [exit])[j]? := by
    intro j
    show (if base + j < base then none else (ms ++ [exit])[base + j - base]?) = _
    rw [if_neg (Nat.not_lt.2 (Nat.le_add_right base j)), Nat.add_sub_cancel_left]
  have hcovers : marks.Covers base ms := by
    intro j k hj
    rw [hmarks, List.getElem?_append_left (List.getElem?_eq_some_iff.1 hj).1, hj]
  have haccepts : marks.Accepts (base + c.length) exit := by
    refine ⟨exit, ?_, .refl exit⟩
    rw [hmarks, ← hlen, List.getElem?_concat_length]
  -- The instruction fits these marks, so that its target has one.
  obtain ⟨j, hj⟩ := List.mem_iff_getElem?.1 hi
  obtain ⟨k, _, hfits⟩ := (hms marks hcovers haccepts).2 j i hj
  obtain ⟨k', hk', _⟩ := hfits.flow target (Instruction.mem_successors htarget _)
  have hmarked : (if target < base then none else (ms ++ [exit])[target - base]?) = some k' := hk'
  split at hmarked
  · cases hmarked
  · next hge =>
    have hlt := (List.getElem?_eq_some_iff.1 hmarked).1
    rw [List.length_append, List.length_singleton, hlen] at hlt
    omega

end RecordMachine
