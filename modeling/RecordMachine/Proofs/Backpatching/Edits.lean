import RecordMachine.Blueprint

/-!
# Edits of a blueprint under construction

A one-pass generator writes a forward jump before it knows where the jump leads: it emits the jump
with the pending address and patches it later. Its history is a list of edits. A patch is in order
if it finds an *open* jump at its index, one that still has the pending address, and points it no
further than the index behind the code; `Exact b es b'` says that edits in order lead from `b` to
`b'`.

What a history does to one index is a balance, `Exact.balance`: a jump that is open before it is
patched once or is open after it. If no jump is left open, each one was therefore patched exactly
once (`Exact.settled`).

Patches of several jumps to one target rewrite a stretch of code; `Fills` says which.
-/

namespace RecordMachine

/-- Whether an instruction is a jump whose target is not known yet. -/
def Instruction.isOpen (i : Instruction) : Bool := i.jumpTarget? = some pendingAddress

def Instruction.redirect (i : Instruction) (target : Nat) : Instruction :=
  { i with operand := some (.address target) }

/-- A change of a blueprint under construction. -/
inductive Edit where
  | emit (i : Instruction)
  | patch (index target : Nat)
deriving DecidableEq

def Edit.patches (index : Nat) : Edit → Bool
  | .emit _ => false
  | .patch other _ => other = index

namespace Blueprint

/-- The blueprint after an edit, if there is an instruction to patch. -/
def edit? (b : Blueprint) : Edit → Option Blueprint
  | .emit i => some (b.emit i)
  | .patch index target => b.patch? index target

def replay? (b : Blueprint) : List Edit → Option Blueprint
  | [] => some b
  | e :: es => (b.edit? e).bind fun b' => b'.replay? es

def openAt (b : Blueprint) (index : Nat) : Bool := b.code[index]?.any Instruction.isOpen

def extend (b : Blueprint) (c : List Instruction) : Blueprint :=
  { b with code := b.code ++ c.toArray }

@[simp] theorem offset_emit (b : Blueprint) (i : Instruction) :
    (b.emit i).offset = b.offset + 1 := by
  simp [offset, emit]

@[simp] theorem offset_extend (b : Blueprint) (c : List Instruction) :
    (b.extend c).offset = b.offset + c.length := by
  simp [offset, extend]

@[simp] theorem extend_nil (b : Blueprint) : b.extend [] = b := by
  simp [extend]

theorem extend_cons (b : Blueprint) (i : Instruction) (c : List Instruction) :
    b.extend (i :: c) = (b.emit i).extend c := by
  simp [extend, emit]

/-- Extending is done in pieces, as the generator writes them. -/
theorem extend_append (b : Blueprint) (c c' : List Instruction) :
    b.extend (c ++ c') = (b.extend c).extend c' := by
  simp [extend]

/-- A patch rewrites an instruction in its place, so that the next offset does not change. -/
theorem offset_of_patch? {b b' : Blueprint} {index target : Nat}
    (h : b.patch? index target = some b') : b'.offset = b.offset := by
  obtain ⟨i, _, rfl⟩ := Option.map_eq_some_iff.1 h
  simp [offset]

/-- A patch redirects the instruction at its index and leaves all others as they are. -/
theorem getElem?_of_patch? {b b' : Blueprint} {index target : Nat}
    (h : b.patch? index target = some b') (k : Nat) :
    b'.code[k]? = if index = k then b.code[k]?.map (·.redirect target) else b.code[k]? := by
  obtain ⟨i, hi, rfl⟩ := Option.map_eq_some_iff.1 h
  show (b.code.setIfInBounds index (i.redirect target))[k]? = _
  by_cases hk : index = k
  · subst hk
    have hlt : index < b.code.size := (Array.getElem?_eq_some_iff.1 hi).1
    rw [if_pos rfl, hi, Array.getElem?_setIfInBounds_self_of_lt hlt]
    rfl
  · rw [if_neg hk, Array.getElem?_setIfInBounds_ne hk]

/-- A patch at the offset where code was put reaches the first instruction of that code. -/
theorem patch?_extend (b : Blueprint) (i : Instruction) (c : List Instruction) (target : Nat) :
    (b.extend (i :: c)).patch? b.offset target = some (b.extend (i.redirect target :: c)) := by
  have hget : (b.extend (i :: c)).code[b.offset]? = some i := by
    simp [extend, offset]
  unfold patch?
  rw [hget, Option.map_some, Option.some.injEq, extend, extend, Blueprint.mk.injEq]
  refine ⟨rfl, rfl, ?_⟩
  apply Array.toList_inj.1
  simp [offset, Instruction.redirect]

end Blueprint

/-! ## Edits in order -/

/-- An edit is in order: a patch finds an open jump, and leads no further than the index behind the
code. -/
def Edit.InOrder (b : Blueprint) : Edit → Prop
  | .emit _ => True
  | .patch index target => b.openAt index = true ∧ target ≤ b.offset

/-- Edits in order that lead from one blueprint to another. -/
inductive Exact : Blueprint → List Edit → Blueprint → Prop where
  | nil (b : Blueprint) : Exact b [] b
  | cons {b mid b' : Blueprint} {e : Edit} {es : List Edit} (horder : e.InOrder b)
      (hedit : b.edit? e = some mid) (hrest : Exact mid es b') : Exact b (e :: es) b'

namespace Exact

variable {b mid b' : Blueprint} {es es' : List Edit}

/-- Histories in order follow each other. Induction on the first. -/
theorem append (h : Exact b es mid) (h' : Exact mid es' b') : Exact b (es ++ es') b' := by
  induction h with
  | nil => exact h'
  | cons horder hedit _ ih => exact .cons horder hedit (ih h')

/-- A history in order may be cut anywhere; `mid` is the blueprint at the cut. -/
theorem split (h : Exact b (es ++ es') b') : ∃ mid, Exact b es mid ∧ Exact mid es' b' := by
  induction es generalizing b with
  | nil => exact ⟨b, .nil b, h⟩
  | cons e es ih =>
    cases h with
    | cons horder hedit hrest =>
      obtain ⟨mid, hfirst, hsecond⟩ := ih hrest
      exact ⟨mid, .cons horder hedit hfirst, hsecond⟩

/-- Edits in order can be replayed, and lead to the same blueprint. -/
theorem replay?_eq (h : Exact b es b') : b.replay? es = some b' := by
  induction h with
  | nil => rfl
  | cons _ hedit _ ih =>
    rw [Blueprint.replay?, hedit]
    exact ih

/-- Writing code instruction by instruction is in order and extends the blueprint by the code. -/
theorem emit_all (b : Blueprint) (c : List Instruction) : Exact b (c.map .emit) (b.extend c) := by
  induction c generalizing b with
  | nil =>
    rw [Blueprint.extend_nil]
    exact .nil b
  | cons i c ih =>
    rw [Blueprint.extend_cons]
    exact .cons trivial rfl (ih (b.emit i))

/-- A history never makes the code shorter. -/
theorem offset_le (h : Exact b es b') : b.offset ≤ b'.offset := by
  induction h with
  | nil => exact Nat.le_refl _
  | @cons b mid b' e es _ hedit _ ih =>
    -- An emission moves the offset by one, and a patch leaves it where it is.
    have hstep : b.offset ≤ mid.offset := by
      cases e with
      | emit i =>
        cases hedit
        rw [Blueprint.offset_emit]
        exact Nat.le_succ _
      | patch index target => exact Nat.le_of_eq (Blueprint.offset_of_patch? hedit).symm
    exact Nat.le_trans hstep ih

end Exact

/-! ## Every open jump is patched once -/

theorem Instruction.isOpen_jump : (Instruction.jump pendingAddress).isOpen = true :=
  decide_eq_true rfl

theorem Instruction.isOpen_jumpIfFalse : (Instruction.jumpIfFalse pendingAddress).isOpen = true :=
  decide_eq_true rfl

/-- A redirected jump is closed, unless it leads to the pending address again. -/
theorem Instruction.isOpen_redirect {i : Instruction} {target : Nat}
    (h : target ≠ pendingAddress) : (i.redirect target).isOpen = false := by
  -- `jumpTarget?` reads the target off the two jump instructions; any other instruction has none.
  have hne : (i.redirect target).jumpTarget? ≠ some pendingAddress := by
    unfold jumpTarget? redirect
    split
    · next heq =>
      cases heq
      simpa using h
    · next heq =>
      cases heq
      simpa using h
    · simp
  unfold isOpen
  exact decide_eq_false hne

/-- What one edit in order does to an index that exists: it patches an open jump there and closes
it, or leaves the index as it is. -/
theorem Edit.InOrder.balance {b mid : Blueprint} {e : Edit} (horder : e.InOrder b)
    (hedit : b.edit? e = some mid) (hshort : mid.offset < pendingAddress) {k : Nat}
    (hk : k < b.offset) :
    (b.openAt k).toNat = (e.patches k).toNat + (mid.openAt k).toNat := by
  cases e with
  | emit i =>
    cases hedit
    have hsame : (b.emit i).openAt k = b.openAt k := by
      unfold Blueprint.openAt Blueprint.emit
      rw [Array.getElem?_push_lt hk, Array.getElem?_eq_getElem hk]
    rw [hsame]
    exact (Nat.zero_add _).symm
  | patch index target =>
    obtain ⟨hopen, htarget⟩ := horder
    have hget := Blueprint.getElem?_of_patch? hedit k
    by_cases hindex : index = k
    · subst hindex
      rw [if_pos rfl] at hget
      -- The target is within the code, so it is not the pending address.
      have hne : target ≠ pendingAddress := by
        have hsize := Blueprint.offset_of_patch? hedit
        omega
      have hclosed : mid.openAt index = false := by
        unfold Blueprint.openAt
        rw [hget, Option.any_map]
        cases b.code[index]? with
        | none => rfl
        | some i => exact Instruction.isOpen_redirect hne
      rw [hopen, hclosed]
      simp [Edit.patches]
    · rw [if_neg hindex] at hget
      have hsame : mid.openAt k = b.openAt k := by
        unfold Blueprint.openAt
        rw [hget]
      rw [hsame]
      simp [Edit.patches, hindex]

namespace Exact

variable {b b' : Blueprint} {es : List Edit} {k : Nat}

/-- The balance of an index over a history: an open jump is patched once, or is still open at the
end; no other instruction is patched. -/
theorem balance (h : Exact b es b') (hshort : b'.offset < pendingAddress) (hk : k < b.offset) :
    (b.openAt k).toNat = es.countP (Edit.patches k) + (b'.openAt k).toNat := by
  induction h with
  | nil => simp
  | @cons b mid b' e es horder hedit hrest ih =>
    have hgrow : mid.offset ≤ b'.offset := hrest.offset_le
    have hstep : b.offset ≤ mid.offset := (Exact.cons horder hedit (.nil mid)).offset_le
    -- The head accounts for the index between `b` and `mid`, the hypothesis from there to `b'`.
    have hfirst := horder.balance hedit (Nat.lt_of_le_of_lt hgrow hshort) hk
    have hothers := ih hshort (Nat.lt_of_lt_of_le hk hstep)
    rw [List.countP_cons, hfirst, hothers]
    cases e.patches k with
    | false => simp
    | true =>
      simp only [Bool.toNat_true, if_true]
      omega

/-- Nothing is patched at an index that the code never grows to. -/
theorem countP_patches_eq_zero (h : Exact b es b') (hk : b'.offset ≤ k) :
    es.countP (Edit.patches k) = 0 := by
  induction h with
  | nil => rfl
  | @cons b mid b' e es horder hedit hrest ih =>
    rw [List.countP_cons, ih hk]
    cases e with
    | emit i => rfl
    | patch index target =>
      -- The patch finds an instruction at its index, and `k` is behind all of them.
      have hgrow := Nat.le_trans (Exact.cons horder hedit hrest).offset_le hk
      have hne : index ≠ k := by
        rintro rfl
        obtain ⟨i, hi, _⟩ := (Option.any_eq_true _ _).1 horder.1
        exact Nat.not_lt.2 hgrow (Array.getElem?_eq_some_iff.1 hi).1
      simp [Edit.patches, hne]

end Exact

/-- A history in which every patch finds an open jump, and every open jump that was emitted is
patched exactly once. -/
structure Settled (b : Blueprint) (es : List Edit) : Prop where
  found : ∀ before index target after, es = before ++ .patch index target :: after →
    ∃ mid i, b.replay? before = some mid ∧ mid.code[index]? = some i ∧ i.isOpen = true
  once : ∀ before i after, es = before ++ .emit i :: after → i.isOpen = true →
    ∃ mid, b.replay? before = some mid ∧ es.countP (Edit.patches mid.offset) = 1

/-- Edits in order that leave no jump open have patched each one exactly once. -/
theorem Exact.settled {b b' : Blueprint} {es : List Edit} (h : Exact b es b')
    (hshort : b'.offset < pendingAddress) (hclosed : ∀ k, b'.openAt k = false) :
    Settled b es where
  found := by
    rintro before index target after rfl
    obtain ⟨mid, hbefore, hafter⟩ := h.split
    cases hafter with
    | cons horder _ _ =>
      obtain ⟨i, hi, hopen⟩ := (Option.any_eq_true _ _).1 horder.1
      exact ⟨mid, i, hbefore.replay?_eq, hi, hopen⟩
  once := by
    rintro before i after rfl hi
    obtain ⟨mid, hbefore, hafter⟩ := h.split
    refine ⟨mid, hbefore.replay?_eq, ?_⟩
    cases hafter with
    | cons horder hedit hrest =>
      cases hedit
      -- Before the jump is emitted nothing is patched at its index.
      have hnone := hbefore.countP_patches_eq_zero (Nat.le_refl mid.offset)
      -- Behind it the index starts open and ends closed.
      have hemitted : (mid.emit i).openAt mid.offset = true := by
        simp [Blueprint.openAt, Blueprint.emit, Blueprint.offset, hi]
      have hbalance := hrest.balance hshort (k := mid.offset) (by simp)
      rw [hemitted, hclosed, Bool.toNat_true, Bool.toNat_false, Nat.add_zero] at hbalance
      rw [List.countP_append, List.countP_cons, hnone, ← hbalance]
      rfl

/-! ## Filling in a target -/

/-- `c'` is `c`, placed from `base` on, with the open jumps at the given indices pointed to
`target`. -/
inductive Fills (target : Nat) : Nat → List Nat → List Instruction → List Instruction → Prop where
  | nil {base : Nat} : Fills target base [] [] []
  | keep {base : Nat} {indices : List Nat} {c c' : List Instruction} (i : Instruction)
      (h : Fills target (base + 1) indices c c') : Fills target base indices (i :: c) (i :: c')
  | fill {base : Nat} {indices : List Nat} {c c' : List Instruction} {i : Instruction}
      (hi : i.isOpen = true) (h : Fills target (base + 1) indices c c') :
      Fills target base (base :: indices) (i :: c) (i.redirect target :: c')

namespace Fills

variable {target base : Nat} {indices others : List Nat} {c c' d d' : List Instruction}

/-- Nothing is filled in if there is no index. -/
theorem refl (c : List Instruction) : Fills target base [] c c := by
  induction c generalizing base with
  | nil => exact .nil
  | cons i c ih => exact .keep i ih

/-- Code that is filled in piece by piece; the second piece begins where the first one ends. -/
theorem append (h : Fills target base indices c c')
    (h' : Fills target (base + c.length) others d d') :
    Fills target base (indices ++ others) (c ++ d) (c' ++ d') := by
  induction h with
  | nil => exact h'
  | keep i _ ih =>
    refine .keep i (ih ?_)
    rw [List.length_cons] at h'
    rwa [Nat.add_assoc, Nat.add_comm 1]
  | fill hi _ ih =>
    refine .fill hi (ih ?_)
    rw [List.length_cons] at h'
    rwa [Nat.add_assoc, Nat.add_comm 1]

/-- Filling in targets keeps the length, so that offsets computed before it remain right. -/
theorem length_eq (h : Fills target base indices c c') : c.length = c'.length := by
  induction h with
  | nil => rfl
  | keep i _ ih => rw [List.length_cons, List.length_cons, ih]
  | fill _ _ ih => rw [List.length_cons, List.length_cons, ih]

/-- One open jump in the middle of code. -/
theorem single {i : Instruction} (hi : i.isOpen = true) (before after : List Instruction) :
    Fills target base [base + before.length] (before ++ i :: after)
      (before ++ i.redirect target :: after) :=
  (refl before).append (.fill hi (refl after))

/-- Filling in is done by patches in order, once the target is not behind what comes next. -/
theorem exact {b : Blueprint} (h : Fills target b.offset indices c c')
    (htarget : target ≤ b.offset + c.length) :
    Exact (b.extend c) (indices.map fun index => .patch index target) (b.extend c') := by
  -- The code is taken over into the blueprint instruction by instruction.
  generalize hbase : b.offset = base at h htarget
  induction h generalizing b with
  | nil => exact .nil _
  | @keep base indices c c' i _ ih =>
    rw [List.length_cons] at htarget
    rw [Blueprint.extend_cons, Blueprint.extend_cons]
    exact ih (by rw [Blueprint.offset_emit, hbase]) (by omega)
  | @fill base indices c c' i hi _ ih =>
    rw [List.length_cons] at htarget
    rw [List.map_cons]
    have hedit := b.patch?_extend i c target
    rw [hbase] at hedit
    refine .cons ⟨?_, ?_⟩ hedit ?_
    · have hget : (b.extend (i :: c)).code[base]? = some i := by
        rw [← hbase]
        simp [Blueprint.extend, Blueprint.offset]
      unfold Blueprint.openAt
      rw [hget]
      exact hi
    · rw [Blueprint.offset_extend, List.length_cons, hbase]
      exact htarget
    · -- The jump is closed now; the other indices lie behind it.
      rw [Blueprint.extend_cons, Blueprint.extend_cons]
      exact ih (by rw [Blueprint.offset_emit, hbase]) (by omega)

end Fills

end RecordMachine
