import Mathlib.Data.List.Nodup
import RecordMachine.Proofs.Lowering.Scoping

/-!
# Lexical scoping

What happens to the variables of a function is a list of steps: blocks are opened and closed,
variables are declared. Which declarations can be seen at the end is told by the steps alone: those
after which no block is closed that was not opened after them (`Scope.Seen`). A scope that takes the
steps one by one agrees with that (`Scope.Nested.exists_binding_iff`), although it closes a block by
looking at the depth of each variable.

Two facts carry the proofs. The variables of a scope are orderly at any time
(`Scope.Orderly.after`). And steps that close no block from before them leave its variables at the
end of the list, with deeper ones in front of them (`Scope.Nested.extends`).
-/

namespace RecordMachine

/-- What can happen to the variables of a function. -/
inductive ScopeStep where
  | enter
  | declare (name : String)
  | leave
deriving DecidableEq

def ScopeStep.name? : ScopeStep → Option String
  | .declare name => some name
  | _ => none

namespace Scope

/-! ## Steps -/

def take (s : Scope) : ScopeStep → Scope
  | .enter => s.enter
  | .declare name => s.declare name
  | .leave => s.leave

def after (s : Scope) (steps : List ScopeStep) : Scope := steps.foldl take s

/-- The declarations among some steps from a scope on, each with the slot that it is given. -/
def grants (s : Scope) : List ScopeStep → List (String × Nat)
  | [] => []
  | .declare name :: rest => (name, s.nextSlot) :: (s.declare name).grants rest
  | step :: rest => (s.take step).grants rest

def declared (steps : List ScopeStep) : List String := steps.filterMap ScopeStep.name?

/-- In these steps no block is closed that was not opened in them, and `k` of those that were opened
are still open. -/
inductive Nested : List ScopeStep → Nat → Prop where
  | nil : Nested [] 0
  | enter {steps : List ScopeStep} {k : Nat} : Nested steps k → Nested (steps ++ [.enter]) (k + 1)
  | declare {steps : List ScopeStep} {k : Nat} (name : String) :
    Nested steps k → Nested (steps ++ [.declare name]) k
  | leave {steps : List ScopeStep} {k : Nat} : Nested steps (k + 1) → Nested (steps ++ [.leave]) k

/-- Among the steps, `name` is declared right after those of `before`, and the block that it is
declared in is open at the end. -/
def Seen (steps before : List ScopeStep) (name : String) : Prop :=
  ∃ rest k, steps = before ++ .declare name :: rest ∧ Nested rest k

variable {s : Scope} {steps : List ScopeStep} {k : Nat}

theorem after_append (s : Scope) (steps more : List ScopeStep) :
    s.after (steps ++ more) = (s.after steps).after more :=
  List.foldl_append

theorem after_concat (s : Scope) (steps : List ScopeStep) (step : ScopeStep) :
    s.after (steps ++ [step]) = (s.after steps).take step :=
  List.foldl_concat _ _ _ _

theorem declared_append (steps more : List ScopeStep) :
    declared (steps ++ more) = declared steps ++ declared more :=
  List.filterMap_append

/-! ## Slots -/

/-- Slots are given out one after another. -/
theorem grants_eq (s : Scope) (steps : List ScopeStep) :
    s.grants steps = (declared steps).zipIdx s.nextSlot := by
  induction steps generalizing s with
  | nil => rfl
  | cons step rest ih =>
    cases step with
    | enter => exact ih s.enter
    | declare name => exact congrArg _ (ih (s.declare name))
    | leave => exact ih s.leave

/-- Every declaration uses up a slot, and closing a block gives none back. -/
theorem nextSlot_after (s : Scope) (steps : List ScopeStep) :
    (s.after steps).nextSlot = s.nextSlot + (declared steps).length := by
  induction steps generalizing s with
  | nil => rfl
  | cons step rest ih =>
    cases step with
    | enter => exact ih s.enter
    | declare name => exact (ih (s.declare name)).trans (Nat.succ_add _ _)
    | leave => exact ih s.leave

theorem Orderly.leave (h : s.Orderly) : s.leave.Orderly where
  decreasing := h.decreasing.filter _
  fresh := fun b hb => h.fresh b (List.mem_filter.1 hb).1
  nested := fun _ hb => of_decide_eq_true (List.mem_filter.1 hb).2

theorem Orderly.after (h : s.Orderly) (steps : List ScopeStep) : (s.after steps).Orderly := by
  induction steps generalizing s with
  | nil => exact h
  | cons step rest ih =>
    cases step with
    | enter => exact ih h.enter
    | declare name => exact ih (h.declare name)
    | leave => exact ih h.leave

/-! ## Blocks -/

/-- Steps that close no block from before them keep its variables, and those that they declare stand
in front of them, at least as deep. -/
theorem Nested.extends (h : Nested steps k) (hs : s.Orderly) :
    (s.after steps).depth = s.depth + k ∧
      ∃ new, (s.after steps).bindings = new ++ s.bindings ∧ ∀ b ∈ new, s.depth ≤ b.depth := by
  induction h with
  | nil => exact ⟨rfl, [], rfl, fun _ hb => nomatch hb⟩
  | enter _ ih =>
    obtain ⟨hdepth, new, hnew, hdeep⟩ := ih
    rw [after_concat]
    exact ⟨congrArg (· + 1) hdepth, new, hnew, hdeep⟩
  | @declare steps k name _ ih =>
    obtain ⟨hdepth, new, hnew, hdeep⟩ := ih
    rw [after_concat]
    refine ⟨hdepth, ⟨name, (s.after steps).nextSlot, (s.after steps).depth⟩ :: new, ?_, ?_⟩
    · exact congrArg _ hnew
    · rw [List.forall_mem_cons]
      exact ⟨hdepth ▸ Nat.le_add_right s.depth k, hdeep⟩
  | @leave steps k _ ih =>
    obtain ⟨hdepth, new, hnew, hdeep⟩ := ih
    rw [after_concat]
    -- One block fewer is open, and it is one that these steps opened.
    have hless : (s.after steps).depth - 1 = s.depth + k := by omega
    refine ⟨hless, new.filter fun b => b.depth ≤ s.depth + k, ?_, ?_⟩
    · -- The block that is closed was opened in these steps, so no variable from before is in it.
      have hkept : s.bindings.filter (fun b => b.depth ≤ s.depth + k) = s.bindings := by
        apply List.filter_eq_self.2
        intro b hb
        exact decide_eq_true (Nat.le_add_right_of_le (hs.nested b hb))
      show (s.after steps).bindings.filter (fun b => b.depth ≤ (s.after steps).depth - 1) = _
      rw [hless, hnew, List.filter_append, hkept]
    · exact fun b hb => hdeep b (List.mem_filter.1 hb).1

/-- Steps that close what they open grow the scope. -/
theorem Nested.grows (h : Nested steps 0) (hs : s.Orderly) : s.Grows (s.after steps) := by
  obtain ⟨hdepth, new, hnew, hdeep⟩ := h.extends hs
  refine ⟨hdepth, ?_, new, hnew, fun b hb => Nat.le_antisymm ?_ (hdeep b hb)⟩
  · rw [nextSlot_after]
    exact Nat.le_add_right _ _
  · rw [← Nat.add_zero s.depth, ← hdepth]
    apply (hs.after steps).nested
    rw [hnew]
    exact List.mem_append_left _ hb

/-- Closing a block brings back the variables that could be seen when it was opened. -/
theorem Nested.bindings_block (h : Nested steps 0) (hs : s.Orderly) :
    (s.after (.enter :: steps ++ [.leave])).bindings = s.bindings := by
  rw [after_concat]
  exact bindings_leave hs (h.grows hs.enter)

/-- A block that is open was opened by one of the steps, and since then no other one was closed but
those that were opened after it. -/
theorem Nested.exists_enter {j : Nat} (h : Nested steps k) (hj : j < k) :
    ∃ before inside, steps = before ++ .enter :: inside ∧ Nested before j ∧
      Nested inside (k - (j + 1)) := by
  induction h with
  | nil => exact absurd hj (Nat.not_lt_zero j)
  | @enter steps k h ih =>
    rcases Nat.lt_or_eq_of_le (Nat.le_of_lt_succ hj) with hlt | rfl
    · obtain ⟨before, inside, rfl, hbefore, hinside⟩ := ih hlt
      refine ⟨before, inside ++ [.enter], by simp, hbefore, ?_⟩
      have hmore := hinside.enter
      rwa [show k - (j + 1) + 1 = k + 1 - (j + 1) by omega] at hmore
    · -- It is the block that was opened last.
      refine ⟨steps, [], rfl, h, ?_⟩
      rw [Nat.sub_self]
      exact .nil
  | declare name _ ih =>
    obtain ⟨before, inside, rfl, hbefore, hinside⟩ := ih hj
    exact ⟨before, inside ++ [.declare name], by simp, hbefore, hinside.declare name⟩
  | @leave steps k _ ih =>
    obtain ⟨before, inside, rfl, hbefore, hinside⟩ := ih (Nat.lt_succ_of_lt hj)
    refine ⟨before, inside ++ [.leave], by simp, hbefore, .leave ?_⟩
    rwa [show k + 1 - (j + 1) = k - (j + 1) + 1 by omega] at hinside

/-! ## Visible variables -/

/-- A declaration whose block is open can be seen. -/
theorem Seen.mem_bindings {before : List ScopeStep} {name : String} (h : Seen steps before name)
    (hs : s.Orderly) :
    ⟨name, (s.after before).nextSlot, (s.after before).depth⟩ ∈ (s.after steps).bindings := by
  obtain ⟨rest, k, rfl, hrest⟩ := h
  have hdeclared := (hs.after before).declare name
  obtain ⟨-, new, hnew, -⟩ := hrest.extends hdeclared
  have hafter : s.after (before ++ .declare name :: rest) =
      ((s.after before).declare name).after rest := after_append s before _
  rw [hafter, hnew]
  exact List.mem_append_right new List.mem_cons_self

/-- What can be seen after the steps was declared by one of them, and as many blocks have been
opened since as it is less deep than the place. -/
theorem Nested.exists_seen (h : Nested steps k) {b : Binding} (hb : b ∈ (after {} steps).bindings) :
    ∃ before rest j, steps = before ++ .declare b.name :: rest ∧ Nested rest j ∧
      (declared before).length = b.slot ∧ b.depth + j = k := by
  induction h with
  | nil => cases hb
  | enter _ ih =>
    rw [after_concat] at hb
    obtain ⟨before, rest, j, rfl, hrest, hslot, hdepth⟩ := ih hb
    exact ⟨before, rest ++ [.enter], j + 1, by simp, hrest.enter, hslot, congrArg (· + 1) hdepth⟩
  | @declare steps k name h ih =>
    rw [after_concat] at hb
    rcases List.mem_cons.1 hb with rfl | hold
    · have hslot : (after {} steps).nextSlot = 0 + (declared steps).length :=
        nextSlot_after {} steps
      have hdepth : (after {} steps).depth = 0 + k := (h.extends orderly_empty).1
      refine ⟨steps, [], 0, rfl, .nil, ?_, ?_⟩
      · rw [hslot, Nat.zero_add]
      · rw [hdepth, Nat.zero_add, Nat.add_zero]
    · obtain ⟨before, rest, j, rfl, hrest, hslot, hdepth⟩ := ih hold
      exact ⟨before, rest ++ [.declare name], j, by simp, hrest.declare name, hslot, hdepth⟩
  | @leave steps k h ih =>
    rw [after_concat] at hb
    obtain ⟨hmem, hle⟩ := List.mem_filter.1 hb
    obtain ⟨before, rest, j, rfl, hrest, hslot, hdepth⟩ := ih hmem
    -- It is not as deep as the block that is closed, so that this block was opened after it.
    have hless : b.depth ≤ k := by
      have hopen : (after {} (before ++ .declare b.name :: rest)).depth = 0 + (k + 1) :=
        (h.extends orderly_empty).1
      rw [hopen] at hle
      have := of_decide_eq_true hle
      omega
    obtain ⟨i, rfl⟩ : ∃ i, j = i + 1 := ⟨j - 1, by omega⟩
    exact ⟨before, rest ++ [.leave], i, by simp, hrest.leave, hslot, by omega⟩

/-- The variables of a scope are the declarations that can be seen, in the slots of their
numbers. -/
theorem Nested.exists_binding_iff (h : Nested steps k) {name : String} {slot : Nat} :
    (∃ b ∈ (after {} steps).bindings, b.name = name ∧ b.slot = slot) ↔
      ∃ before, Seen steps before name ∧ (declared before).length = slot := by
  constructor
  · rintro ⟨b, hb, rfl, rfl⟩
    obtain ⟨before, rest, j, hsteps, hrest, hslot, -⟩ := h.exists_seen hb
    exact ⟨before, ⟨rest, j, hsteps, hrest⟩, hslot⟩
  · rintro ⟨before, hseen, rfl⟩
    have hslot : (after {} before).nextSlot = 0 + (declared before).length :=
      nextSlot_after {} before
    exact ⟨_, hseen.mem_bindings orderly_empty, rfl, hslot.trans (Nat.zero_add _)⟩

/-- A name stands for nothing exactly if no visible variable has it. -/
theorem resolve?_eq_none_iff {name : String} :
    s.resolve? name = none ↔ ∀ b ∈ s.bindings, b.name ≠ name := by
  unfold resolve?
  rw [Option.map_eq_none_iff, List.find?_eq_none]
  simp

/-- A name that stands for a slot is that of a visible variable. -/
theorem exists_of_resolve? {name : String} {slot : Nat} (h : s.resolve? name = some slot) :
    ∃ b ∈ s.bindings, b.name = name ∧ b.slot = slot := by
  obtain ⟨b, hfound, rfl⟩ := Option.map_eq_some_iff.1 h
  exact ⟨b, List.mem_of_find?_eq_some hfound, by simpa using List.find?_some hfound, rfl⟩

/-- No visible variable of the name has a greater slot than the one that it stands for. -/
theorem Orderly.le_of_resolve? (hs : s.Orderly) {name : String} {slot : Nat}
    (h : s.resolve? name = some slot) {b : Binding} (hb : b ∈ s.bindings) (hname : b.name = name) :
    b.slot ≤ slot := by
  obtain ⟨found, hfound, rfl⟩ := Option.map_eq_some_iff.1 h
  obtain ⟨-, front, rest, hsplit, hfront⟩ := List.find?_eq_some_iff_append.1 hfound
  have hdecreasing := hs.decreasing
  rw [hsplit] at hb hdecreasing
  -- The search starts with the latest variable, and what it has passed is of another name.
  rcases List.mem_append.1 hb with hpassed | hleft
  · exact absurd (beq_iff_eq.2 hname) (by simpa using hfront b hpassed)
  · rcases List.mem_cons.1 hleft with rfl | hrest
    · exact Nat.le_refl _
    · have hlater := (List.pairwise_append.1 hdecreasing).2.1
      exact Nat.le_of_lt ((List.pairwise_cons.1 hlater).1 b hrest)

/-- The variable of a name is the one with the greatest slot. -/
theorem Orderly.resolve?_eq_some_iff (hs : s.Orderly) {name : String} {slot : Nat} :
    s.resolve? name = some slot ↔
      (∃ b ∈ s.bindings, b.name = name ∧ b.slot = slot) ∧
        ∀ b ∈ s.bindings, b.name = name → b.slot ≤ slot := by
  constructor
  · intro h
    exact ⟨exists_of_resolve? h, fun b hb hname => hs.le_of_resolve? h hb hname⟩
  · rintro ⟨⟨b, hb, hname, rfl⟩, hgreatest⟩
    cases hresolved : s.resolve? name with
    | none => exact absurd hname (resolve?_eq_none_iff.1 hresolved b hb)
    | some slot =>
      obtain ⟨c, hc, hcname, rfl⟩ := exists_of_resolve? hresolved
      have hle := hs.le_of_resolve? hresolved hb hname
      rw [Nat.le_antisymm (hgreatest c hc hcname) hle]

/-- Of the declarations of a name that can be seen, this is the latest one. -/
def Latest (steps before : List ScopeStep) (name : String) : Prop :=
  Seen steps before name ∧ ∀ other, Seen steps other name → other.length ≤ before.length

/-- A declaration that can be seen is one of the steps. -/
theorem Seen.declare_prefix {before : List ScopeStep} {name : String} (h : Seen steps before name) :
    before ++ [.declare name] <+: steps := by
  obtain ⟨rest, k, rfl, -⟩ := h
  exact ⟨rest, by simp⟩

/-- Of two declarations the later one has the greater number. -/
theorem Seen.length_le_iff {before other : List ScopeStep} {name : String}
    (h : Seen steps before name) (hother : Seen steps other name) :
    (declared other).length ≤ (declared before).length ↔ other.length ≤ before.length := by
  have hprefix := (List.prefix_append before [.declare name]).trans h.declare_prefix
  have hother' := (List.prefix_append other [.declare name]).trans hother.declare_prefix
  constructor
  · intro hle
    by_contra hlonger
    -- If the other one came later, the steps before it would contain this declaration.
    have hinside : before ++ [.declare name] <+: other := by
      apply List.prefix_of_prefix_length_le h.declare_prefix hother'
      rw [List.length_append, List.length_singleton]
      omega
    have hlength := (hinside.filterMap ScopeStep.name?).length_le
    rw [← declared, ← declared, declared_append, List.length_append] at hlength
    exact Nat.not_succ_le_self _ (Nat.le_trans hlength hle)
  · intro hle
    exact ((List.prefix_of_prefix_length_le hother' hprefix hle).filterMap
      ScopeStep.name?).length_le

/-- The variable of a name is the latest declaration of it that can be seen. -/
theorem Nested.resolve?_eq_some_iff (h : Nested steps k) {name : String} {slot : Nat} :
    (after {} steps).resolve? name = some slot ↔
      ∃ before, Latest steps before name ∧ (declared before).length = slot := by
  rw [(orderly_empty.after steps).resolve?_eq_some_iff, h.exists_binding_iff]
  constructor
  · rintro ⟨⟨before, hseen, rfl⟩, hgreatest⟩
    refine ⟨before, ⟨hseen, fun other hother => ?_⟩, rfl⟩
    obtain ⟨b, hb, hname, hslot⟩ := h.exists_binding_iff.2 ⟨other, hother, rfl⟩
    rw [← hseen.length_le_iff hother, ← hslot]
    exact hgreatest b hb hname
  · rintro ⟨before, ⟨hseen, hlatest⟩, rfl⟩
    refine ⟨⟨before, hseen, rfl⟩, fun b hb hname => ?_⟩
    obtain ⟨other, hother, hslot⟩ := h.exists_binding_iff.1 ⟨b, hb, hname, rfl⟩
    rw [← hslot, hseen.length_le_iff hother]
    exact hlatest other hother

/-- A name stands for nothing exactly if no declaration of it can be seen. -/
theorem Nested.resolve?_eq_none_iff (h : Nested steps k) {name : String} :
    (after {} steps).resolve? name = none ↔ ∀ before, ¬Seen steps before name := by
  rw [Scope.resolve?_eq_none_iff]
  constructor
  · intro hnone before hseen
    exact hnone _ (hseen.mem_bindings orderly_empty) rfl
  · intro hunseen b hb hname
    obtain ⟨before, hseen, -⟩ := h.exists_binding_iff.1 ⟨b, hb, hname, rfl⟩
    exact hunseen before hseen

/-! ## All together -/

/-- A function starts by declaring its parameters. -/
theorem ofParams_eq_after (params : List String) :
    ofParams params = after {} (params.map .declare) := by
  unfold after
  rw [List.foldl_map]
  rfl

/-- Where a block has just been closed, one block more was open before. -/
theorem Nested.of_leave {front : List ScopeStep} (h : Nested (front ++ [.leave]) k) :
    Nested front (k + 1) := by
  generalize hsteps : front ++ [ScopeStep.leave] = steps at h
  cases h with
  | nil => simp at hsteps
  | enter _ => simp at hsteps
  | declare name _ => simp at hsteps
  | leave h =>
    obtain rfl : front = _ := List.append_cancel_right hsteps
    exact h

/-- Slots are resolved by lexical scoping. Take any steps from the start of a function on, with
blocks that nest. The declaration of number `n` gets the slot `n`, so that no slot is given twice. A
name stands for the latest declaration of it that can be seen, and for nothing if there is none.
Where a block is closed, which one of the steps has opened, exactly the variables from before it are
visible again. No two visible variables share a slot, and the parameters of a function are in the
first slots. -/
theorem slots_lexical (h : Nested steps k) :
    grants {} steps = (declared steps).zipIdx ∧
    ((grants {} steps).map Prod.snd).Nodup ∧
    (∀ name slot, (after {} steps).resolve? name = some slot ↔
      ∃ before, Latest steps before name ∧ (declared before).length = slot) ∧
    (∀ name, (after {} steps).resolve? name = none ↔ ∀ before, ¬Seen steps before name) ∧
    (∀ before inside, steps = before ++ (.enter :: inside ++ [.leave]) → Nested inside 0 →
      (after {} steps).bindings = (after {} before).bindings) ∧
    (∀ front, steps = front ++ [.leave] →
      ∃ before inside, front = before ++ .enter :: inside ∧ Nested inside 0) ∧
    (after {} steps).bindings.Pairwise (fun b c => b.slot ≠ c.slot) ∧
    ∀ params : List String, ofParams params = after {} (params.map .declare) ∧
      (params.zipIdx.map fun x => Binding.mk x.1 x.2 0).reverse <:+
        ((ofParams params).after steps).bindings := by
  refine ⟨grants_eq {} steps, ?_, fun _ _ => h.resolve?_eq_some_iff,
    fun _ => h.resolve?_eq_none_iff, ?_, ?_, ?_, fun params => ⟨ofParams_eq_after params, ?_⟩⟩
  · rw [grants_eq, List.zipIdx_map_snd]
    exact List.nodup_range'
  · rintro before inside rfl hinside
    rw [after_append]
    exact hinside.bindings_block (orderly_empty.after before)
  · rintro front rfl
    -- The block that the last step closes is the innermost one, and some step has opened it.
    obtain ⟨before, inside, hfront, -, hinside⟩ := h.of_leave.exists_enter (Nat.lt_succ_self k)
    rw [Nat.sub_self] at hinside
    exact ⟨before, inside, hfront, hinside⟩
  · exact (orderly_empty.after steps).decreasing.imp fun hlt => (Nat.ne_of_lt hlt).symm
  · -- Balanced steps never leave the block of the parameters, so these stay at the bottom.
    obtain ⟨-, new, hnew, -⟩ := h.extends (orderly_ofParams params)
    rw [hnew, ofParams_eq]
    exact List.suffix_append new _

/-- A variable that is hidden in two blocks, the first of which is closed, and in the second one
twice. -/
def shadowing : List ScopeStep :=
  [.declare "x", .enter, .declare "x", .declare "y", .leave, .enter, .declare "x", .declare "x"]

/-- In the second block the last of its two declarations counts, and nothing of the first one can be
seen. -/
theorem slots_lexical_shadowing :
    Nested shadowing 1 ∧ (after {} shadowing).resolve? "x" = some 4 ∧
    (∃ before, Latest shadowing before "x" ∧ (declared before).length = 4) ∧
    (∀ before, ¬Seen shadowing before "y") ∧
    (after {} (shadowing ++ [.leave])).bindings = [⟨"x", 0, 0⟩] := by
  have hnested : Nested shadowing 1 :=
    .declare "x" (.declare "x" (.enter (.leave (.declare "y" (.declare "x" (.enter
      (.declare "x" .nil)))))))
  have hinside : Nested [.declare "x", .declare "x"] 0 := .declare "x" (.declare "x" .nil)
  obtain ⟨_, _, hsome, hnone, _⟩ := slots_lexical hnested
  obtain ⟨_, _, _, _, hrestored, _⟩ := slots_lexical hnested.leave
  refine ⟨hnested, by decide, (hsome "x" 4).1 (by decide), (hnone "y").1 (by decide), ?_⟩
  exact (hrestored (shadowing.take 5) [.declare "x", .declare "x"] rfl hinside).trans (by decide)

end Scope

end RecordMachine
