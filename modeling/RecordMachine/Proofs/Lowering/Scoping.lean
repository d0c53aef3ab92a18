import RecordMachine.Proofs.Lowering.Shape

/-!
# Scopes during lowering

What a statement does to the visible variables. Every scope that lowering meets is *orderly*: later
declarations have greater slots, all of them below the next one, and no declaration stands deeper
than the open blocks. A statement only ever *grows* the scope, by declarations in the innermost
block, so that closing a block brings back the variables from before it (`Scope.leave_of_grows`).
-/

namespace RecordMachine

namespace Scope

/-! ## Orderly scopes -/

/-- Slots are given out in the order of the declarations, and blocks nest. -/
structure Orderly (s : Scope) : Prop where
  decreasing : s.bindings.Pairwise fun later earlier => earlier.slot < later.slot
  fresh : ∀ b ∈ s.bindings, b.slot < s.nextSlot
  nested : ∀ b ∈ s.bindings, b.depth ≤ s.depth

/-- `s'` comes from `s` by declarations in the innermost block, and by the use of more slots. -/
structure Grows (s s' : Scope) : Prop where
  depth : s'.depth = s.depth
  slots : s.nextSlot ≤ s'.nextSlot
  bindings : ∃ new, s'.bindings = new ++ s.bindings ∧ ∀ b ∈ new, b.depth = s.depth

/-- The scope in which the slots below `next` are used up. -/
def reserve (s : Scope) (next : Nat) : Scope := { s with nextSlot := next }

/-- Opening a block keeps a scope orderly. -/
theorem Orderly.enter {s : Scope} (h : s.Orderly) : s.enter.Orderly where
  decreasing := h.decreasing
  fresh := h.fresh
  nested := fun b hb => Nat.le_succ_of_le (h.nested b hb)

/-- A new variable gets the next slot, which is greater than all others. -/
theorem Orderly.declare {s : Scope} (h : s.Orderly) (name : String) :
    (s.declare name).Orderly where
  decreasing := List.pairwise_cons.2 ⟨fun b hb => h.fresh b hb, h.decreasing⟩
  fresh := by
    intro b hb
    rcases List.mem_cons.1 hb with rfl | hold
    · exact Nat.lt_succ_self _
    · exact Nat.lt_succ_of_lt (h.fresh b hold)
  nested := by
    intro b hb
    rcases List.mem_cons.1 hb with rfl | hold
    · exact Nat.le_refl _
    · exact h.nested b hold

theorem Orderly.reserve {s : Scope} (h : s.Orderly) {next : Nat} (hnext : s.nextSlot ≤ next) :
    (s.reserve next).Orderly where
  decreasing := h.decreasing
  fresh := fun b hb => Nat.lt_of_lt_of_le (h.fresh b hb) hnext
  nested := h.nested

/-- So does the variable of a counting loop, be it new or not. -/
theorem Orderly.counter {s inner : Scope} {var : String} {slot : Nat} (h : s.Orderly)
    (hcounter : s.counter var = (slot, inner)) : inner.Orderly := by
  unfold Scope.counter at hcounter
  split at hcounter
  · cases hcounter
    exact h
  · cases hcounter
    exact h.declare var

/-- The variable of a counting loop stands for its slot. -/
theorem resolve?_counter {s inner : Scope} {var : String} {slot : Nat}
    (hcounter : s.counter var = (slot, inner)) : inner.resolve? var = some slot := by
  unfold Scope.counter at hcounter
  split at hcounter
  · next hfound =>
    cases hcounter
    exact hfound
  · cases hcounter
    simp [resolve?, declare]

/-! ## Growth -/

theorem Grows.refl (s : Scope) : s.Grows s where
  depth := rfl
  slots := Nat.le_refl _
  bindings := ⟨[], rfl, by simp⟩

theorem Grows.trans {s mid s' : Scope} (h : s.Grows mid) (h' : mid.Grows s') : s.Grows s' where
  depth := h'.depth.trans h.depth
  slots := Nat.le_trans h.slots h'.slots
  bindings := by
    obtain ⟨new, hnew, hdepth⟩ := h.bindings
    obtain ⟨new', hnew', hdepth'⟩ := h'.bindings
    refine ⟨new' ++ new, by rw [hnew', hnew, List.append_assoc], ?_⟩
    intro b hb
    rcases List.mem_append.1 hb with hb | hb
    · rw [hdepth' b hb, h.depth]
    · exact hdepth b hb

theorem Grows.declare (s : Scope) (name : String) : s.Grows (s.declare name) where
  depth := rfl
  slots := Nat.le_succ _
  bindings := ⟨[⟨name, s.nextSlot, s.depth⟩], rfl, by simp⟩

theorem Grows.reserve (s : Scope) {next : Nat} (hnext : s.nextSlot ≤ next) :
    s.Grows (s.reserve next) where
  depth := rfl
  slots := hnext
  bindings := ⟨[], rfl, by simp⟩

/-- The variable of a counting loop grows the scope by one variable, or by none. -/
theorem Grows.counter {s inner : Scope} {var : String} {slot : Nat}
    (hcounter : s.counter var = (slot, inner)) : s.Grows inner := by
  unfold Scope.counter at hcounter
  split at hcounter
  · cases hcounter
    exact .refl _
  · cases hcounter
    exact .declare _ _

/-- Closing a block brings back exactly the variables that were visible before it was opened; only
the slots that it used stay used. -/
theorem leave_of_grows {s s' : Scope} (h : s.Orderly) (hgrows : s.enter.Grows s') :
    s'.leave = s.reserve s'.nextSlot := by
  obtain ⟨new, hnew, hdepth⟩ := hgrows.bindings
  have hdeep : s'.depth - 1 = s.depth := by
    rw [hgrows.depth]
    rfl
  have hkept : s'.bindings.filter (fun b => decide (b.depth ≤ s'.depth - 1)) = s.bindings := by
    rw [hdeep, hnew, List.filter_append]
    -- What the block declared is deeper than what stays.
    have hgone : new.filter (fun b => decide (b.depth ≤ s.depth)) = [] := by
      rw [List.filter_eq_nil_iff]
      intro b hb
      have hinside : b.depth = s.depth + 1 := hdepth b hb
      simp only [decide_eq_true_eq]
      omega
    -- No variable from before the block is.
    have hstay : s.enter.bindings.filter (fun b => decide (b.depth ≤ s.depth)) = s.bindings := by
      apply List.filter_eq_self.2
      intro b hb
      simpa using h.nested b hb
    rw [hgone, hstay, List.nil_append]
  unfold leave reserve
  rw [hkept, hdeep]

/-- A block as a whole only uses up slots. -/
theorem Grows.of_block {s s' : Scope} (h : s.Orderly) (hgrows : s.enter.Grows s') :
    s.Grows s'.leave := by
  rw [leave_of_grows h hgrows]
  exact .reserve s hgrows.slots

theorem Orderly.of_block {s s' : Scope} (h : s.Orderly) (hgrows : s.enter.Grows s') :
    s'.leave.Orderly := by
  rw [leave_of_grows h hgrows]
  exact h.reserve hgrows.slots

/-- A block leaves the visible variables as they were. -/
theorem bindings_leave {s s' : Scope} (h : s.Orderly) (hgrows : s.enter.Grows s') :
    s'.leave.bindings = s.bindings := by
  rw [leave_of_grows h hgrows]
  rfl

/-! ## Slots of visible variables -/

/-- The number of slots that the visible variables need: the slot of the latest one, and all before
it. -/
def reach (s : Scope) : Nat :=
  match s.bindings with
  | [] => 0
  | latest :: _ => latest.slot + 1

/-- The reach depends on the visible variables only. -/
theorem reach_congr {s s' : Scope} (h : s'.bindings = s.bindings) : s'.reach = s.reach := by
  unfold reach
  rw [h]

/-- Every visible variable has a slot within the reach, since the latest one has the greatest. -/
theorem Orderly.slot_lt_reach {s : Scope} (h : s.Orderly) {b : Binding} (hb : b ∈ s.bindings) :
    b.slot < s.reach := by
  have hdecreasing := h.decreasing
  unfold reach
  cases hbindings : s.bindings with
  | nil =>
    rw [hbindings] at hb
    cases hb
  | cons latest rest =>
    rw [hbindings] at hb hdecreasing
    rcases List.mem_cons.1 hb with rfl | hrest
    · exact Nat.lt_succ_self _
    · have hlater := (List.pairwise_cons.1 hdecreasing).1 b hrest
      show b.slot < latest.slot + 1
      omega

/-- What a name stands for is within the reach. -/
theorem Orderly.lt_reach_of_resolve? {s : Scope} (h : s.Orderly) {name : String} {slot : Nat}
    (hslot : s.resolve? name = some slot) : slot < s.reach := by
  obtain ⟨b, hfound, rfl⟩ := Option.map_eq_some_iff.1 hslot
  exact h.slot_lt_reach (List.mem_of_find?_eq_some hfound)

/-- Visible variables need no slots that have not been given out. -/
theorem Orderly.reach_le_nextSlot {s : Scope} (h : s.Orderly) : s.reach ≤ s.nextSlot := by
  have hfresh := h.fresh
  unfold reach
  cases hbindings : s.bindings with
  | nil => exact Nat.zero_le _
  | cons latest rest =>
    rw [hbindings] at hfresh
    exact hfresh latest List.mem_cons_self

theorem reach_declare (s : Scope) (name : String) : (s.declare name).reach = s.nextSlot + 1 := rfl

/-- Storing the first value of the variable of a counting loop makes its slot. -/
theorem Orderly.reach_counter {s inner : Scope} {var : String} {slot : Nat} (h : s.Orderly)
    (hcounter : s.counter var = (slot, inner)) : max s.reach (slot + 1) = inner.reach := by
  unfold Scope.counter at hcounter
  split at hcounter
  · next hfound =>
    cases hcounter
    exact Nat.max_eq_left (h.lt_reach_of_resolve? hfound)
  · cases hcounter
    rw [reach_declare]
    exact Nat.max_eq_right (Nat.le_succ_of_le h.reach_le_nextSlot)

/-- A scope that has grown reaches at least as far. -/
theorem reach_le_of_grows {s s' : Scope} (h : s.Grows s') (hord : s'.Orderly) :
    s.reach ≤ s'.reach := by
  obtain ⟨new, hnew, _⟩ := h.bindings
  -- The latest variable of the smaller scope is still visible.
  have hlatest : ∀ b ∈ s.bindings, b.slot < s'.reach := by
    intro b hb
    apply hord.slot_lt_reach
    rw [hnew]
    exact List.mem_append_right new hb
  show (match s.bindings with | [] => 0 | latest :: _ => latest.slot + 1) ≤ s'.reach
  cases hbindings : s.bindings with
  | nil => exact Nat.zero_le _
  | cons latest rest =>
    rw [hbindings] at hlatest
    exact hlatest latest List.mem_cons_self

/-! ## The scope of a function -/

/-- The parameters of a function, the last one in front, in the slots from `0` on. -/
theorem ofParams_eq (names : List String) :
    ofParams names = ⟨(names.zipIdx.map fun x => ⟨x.1, x.2, 0⟩).reverse, 0, names.length⟩ := by
  -- Declaring more names continues any scope at its next slot.
  have hfold : ∀ (rest : List String) (bindings : List Binding) (k : Nat),
      rest.foldl declare ⟨bindings, 0, k⟩
        = ⟨((rest.zipIdx k).map fun x => ⟨x.1, x.2, 0⟩).reverse ++ bindings, 0,
            k + rest.length⟩ := by
    intro rest
    induction rest with
    | nil =>
      intro bindings k
      simp
    | cons name rest ih =>
      intro bindings k
      rw [List.foldl_cons, declare, ih]
      simp [Nat.add_comm, Nat.add_left_comm]
  have h := hfold names [] 0
  simp only [List.append_nil, Nat.zero_add] at h
  exact h

/-- Without variables there is nothing to violate the order. -/
theorem orderly_empty : Orderly {} where
  decreasing := List.Pairwise.nil
  fresh := fun _ hb => nomatch hb
  nested := fun _ hb => nomatch hb

/-- A function starts with an orderly scope. -/
theorem orderly_ofParams (names : List String) : (ofParams names).Orderly := by
  have hfold : ∀ (rest : List String) (s : Scope), s.Orderly → (rest.foldl declare s).Orderly := by
    intro rest
    induction rest with
    | nil => exact fun _ h => h
    | cons name rest ih => exact fun s h => ih _ (h.declare name)
  exact hfold names {} orderly_empty

end Scope

/-! ## Statements -/

section Statements

variable {ctx : Context}

mutual

/-- A statement grows the scope and keeps it orderly. -/
theorem StmtCode.grows : ∀ {base : Nat} {scope : Scope} {s : Stmt} {c : Code} {scope' : Scope},
    StmtCode ctx base scope s c scope' → scope.Orderly → scope.Grows scope' ∧ scope'.Orderly
  | _, _, _, _, _, .declare _, hord => ⟨.declare _ _, hord.declare _⟩
  | _, _, _, _, _, .assign _ _, hord => ⟨.refl _, hord⟩
  | _, _, _, _, _, .ifChain hchain, hord => hchain.grows hord
  | _, _, _, _, _, .whileLoop _ hbody, hord => by
    have hgrows := (hbody.grows hord.enter).1
    exact ⟨.of_block hord hgrows, .of_block hord hgrows⟩
  | _, _, _, _, _, .forLoop _ hcounter _ _ hbody, hord => by
    have hinner := hord.enter.counter hcounter
    have hgrows := (hbody.grows hinner.enter).1
    -- The loop opens two blocks: one for its variable and one for its body.
    have houter := (Scope.Grows.counter hcounter).trans (.of_block hinner hgrows)
    exact ⟨.of_block hord houter, .of_block hord houter⟩
  | _, _, _, _, _, .retNil, hord => ⟨.refl _, hord⟩
  | _, _, _, _, _, .ret _, hord => ⟨.refl _, hord⟩
  | _, _, _, _, _, .delete _, hord => ⟨.refl _, hord⟩
  | _, _, _, _, _, .call _, hord => ⟨.refl _, hord⟩

theorem SequenceCode.grows :
    ∀ {base : Nat} {scope : Scope} {body : List Stmt} {c : Code} {scope' : Scope},
      SequenceCode ctx base scope body c scope' → scope.Orderly →
        scope.Grows scope' ∧ scope'.Orderly
  | _, _, _, _, _, .nil, hord => ⟨.refl _, hord⟩
  | _, _, _, _, _, .cons hs hrest, hord => by
    obtain ⟨hfirst, hmid⟩ := hs.grows hord
    obtain ⟨hothers, hend⟩ := hrest.grows hmid
    exact ⟨hfirst.trans hothers, hend⟩

/-- So does a chain of branches, each of which is a block. -/
theorem ChainCode.grows :
    ∀ {base : Nat} {scope : Scope} {landing : Nat} {chain : Chain} {c : Code} {scope' : Scope},
      ChainCode ctx base scope landing chain c scope' → scope.Orderly →
        scope.Grows scope' ∧ scope'.Orderly
  | _, _, _, _, _, _, .done, hord => ⟨.refl _, hord⟩
  | _, _, _, _, _, _, .otherwise hbody, hord => by
    have hgrows := (hbody.grows hord.enter).1
    exact ⟨.of_block hord hgrows, .of_block hord hgrows⟩
  | _, _, _, _, _, _, .branch _ hbody _ hrest, hord => by
    have hgrows := (hbody.grows hord.enter).1
    obtain ⟨hothers, hend⟩ := hrest.grows (.of_block hord hgrows)
    exact ⟨(Scope.Grows.of_block hord hgrows).trans hothers, hend⟩

end

/-- Behind a chain the visible variables are those from before it. -/
theorem ChainCode.bindings_eq :
    ∀ {base : Nat} {scope : Scope} {landing : Nat} {chain : Chain} {c : Code} {scope' : Scope},
      ChainCode ctx base scope landing chain c scope' → scope.Orderly →
        scope'.bindings = scope.bindings
  | _, _, _, _, _, _, .done, _ => rfl
  | _, _, _, _, _, _, .otherwise hbody, hord =>
    Scope.bindings_leave hord (hbody.grows hord.enter).1
  | _, _, _, _, _, _, .branch _ hbody _ hrest, hord => by
    have hgrows := (hbody.grows hord.enter).1
    rw [hrest.bindings_eq (.of_block hord hgrows), Scope.bindings_leave hord hgrows]

end Statements

end RecordMachine
