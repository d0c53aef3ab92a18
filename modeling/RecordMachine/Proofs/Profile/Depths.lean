import Mathlib.Order.Bounds.Basic
import Mathlib.Order.MinMax
import RecordMachine.Proofs.Machine.Calls
import RecordMachine.Proofs.Profile.Observation

/-!
# No peak is missed

A profile looks at depths before an instruction only, and at operands only in the innermost
activation. In a run that returns this is enough. An activation that is not innermost has become so
by a call, before which it was innermost and had at least as many operands (`Machine.tail_of_step`);
and a run that returns executes one more instruction in every state that it gets to, up to the last,
in which nothing is active (`Machine.advance_of_done`). So the greatest depths over all moments of
the run are those of the executed states (`Machine.isGreatest_callDepths`,
`Machine.isGreatest_stackDepths`).

The activations of such a run are all left again, which ties its returns to its calls
(`Machine.rets_of_done`).
-/

namespace RecordMachine

namespace Machine

variable {m : Machine} {s s' last : State} {v : Value} {n : Nat}

/-! ## Calls and returns -/

/-- The step that ends a run with a value is a return from the only activation. -/
theorem ret_of_done (hstep : m.step s = .done v last) :
    s.opcode? = some .ret ∧ s.callDepth = 1 ∧ last.frames = [] := by
  rcases m.step_cases s with ⟨_, h⟩ | ⟨_, _, _, _, h⟩ | ⟨a, rest, i, hframes, hi, hexec⟩
  · cases h.symm.trans hstep
  · cases h.symm.trans hstep
  · rw [hstep] at hexec
    cases hexec with
    | done hop hrest _ hframes' _ =>
      subst hrest
      refine ⟨?_, congrArg List.length hframes, hframes'⟩
      have hnext : s.instruction? = some i := by
        unfold State.instruction?
        rw [hframes]
        exact hi
      rw [State.opcode?_eq hnext, hop]

/-- A call makes one activation more, a return one less, and nothing else changes their number. -/
theorem callDepth_step {i : Instruction} (hi : s.instruction? = some i)
    (hstep : m.step s = .next s') :
    s'.callDepth + (if i.opcode = .ret then 1 else 0) =
      s.callDepth + if i.opcode = .call then 1 else 0 := by
  obtain ⟨a, rest, hframes, hcode⟩ := State.frames_of_instruction? hi
  have hexec := step_executes (m := m) hframes hcode
  rw [hstep] at hexec
  unfold State.callDepth
  rw [hframes]
  cases hexec with
  | effect heffect hframes' _ =>
    have hne := heffect.opcode_ne
    simp [hframes', hne.1, hne.2]
  | call hop _ _ _ hframes' _ => simp [hframes', hop]
  | ret hop hrest _ hframes' _ => simp [hframes', hop, hrest]

/-- The first step of a run that ends with a value: the run goes on from there or has ended. -/
theorem done_cases (hdone : m.advance (n + 1) s = .done v last) :
    ∃ i, s.instruction? = some i ∧
      ((∃ mid, m.step s = .next mid ∧ m.advance n mid = .done v last ∧
        m.executed (n + 1) s = s :: m.executed n mid) ∨
      m.step s = .done v last ∧ m.executed (n + 1) s = [s]) := by
  rw [advance] at hdone
  rw [executed]
  cases hi : s.instruction? with
  | none =>
    obtain ⟨fault, hstep⟩ := m.step_of_instruction?_none hi
    rw [hstep] at hdone
    cases hdone
  | some i =>
    refine ⟨i, rfl, ?_⟩
    cases hstep : m.step s with
    | next mid =>
      rw [hstep] at hdone
      exact .inl ⟨mid, rfl, hdone, rfl⟩
    | done v' last' =>
      rw [hstep] at hdone
      exact .inr ⟨hdone, rfl⟩
    | failed fault last' =>
      rw [hstep] at hdone
      cases hdone

/-- A run that ends with a value has returned from all activations that were there and from all that
it has made. -/
theorem rets_of_done (hdone : m.advance n s = .done v last) :
    (m.executed n s).countP (fun e => e.opcode? = some .ret) =
      s.callDepth + (m.executed n s).countP fun e => e.opcode? = some .call := by
  induction n generalizing s with
  | zero => cases hdone
  | succ n ih =>
    obtain ⟨i, hi, ⟨mid, hstep, hmid, hexecuted⟩ | ⟨hstep, hexecuted⟩⟩ := done_cases hdone
    · have hrest := ih hmid
      have hdepth := callDepth_step hi hstep
      rw [hexecuted]
      simp only [List.countP_cons, State.opcode?_eq hi, Option.some.injEq, decide_eq_true_eq]
      omega
    · obtain ⟨hop, hdepth, _⟩ := ret_of_done hstep
      rw [hexecuted]
      simp [hop, hdepth]

/-! ## Moments of a run -/

/-- A state that counts as executed is one that the run gets to. -/
theorem exists_advance_of_executed {e : State} (he : e ∈ m.executed n s) :
    ∃ k, m.advance k s = .next e := by
  induction n generalizing s with
  | zero => cases he
  | succ n ih =>
    rw [executed] at he
    cases hi : s.instruction? with
    | none =>
      rw [hi] at he
      cases he
    | some i =>
      rw [hi] at he
      dsimp only at he
      cases hstep : m.step s with
      | next mid =>
        rw [hstep] at he
        -- The state itself is got to in no step, and a later one in one step more than from the
        -- next state.
        rcases List.mem_cons.1 he with rfl | hlater
        · exact ⟨0, rfl⟩
        · obtain ⟨k, hk⟩ := ih hlater
          refine ⟨k + 1, ?_⟩
          rw [advance, hstep]
          exact hk
      | done _ _ | failed _ _ =>
        rw [hstep] at he
        rw [List.mem_singleton.1 he]
        exact ⟨0, rfl⟩

/-- At every moment, a run that ends with a value is about to execute an instruction, or it has
ended and no activation is left. -/
theorem advance_of_done (hdone : m.advance n s = .done v last) (k : Nat) :
    (∃ e ∈ m.executed n s, m.advance k s = .next e) ∨
      m.advance k s = .done v last ∧ last.frames = [] := by
  -- The moment `k` is that of the whole run, so it is counted down along with the steps.
  induction n generalizing s k with
  | zero => cases hdone
  | succ n ih =>
    obtain ⟨i, _, ⟨mid, hstep, hmid, hexecuted⟩ | ⟨hstep, hexecuted⟩⟩ := done_cases hdone
    · rw [hexecuted]
      cases k with
      | zero => exact .inl ⟨s, List.mem_cons_self, rfl⟩
      | succ k =>
        rw [advance, hstep]
        rcases ih hmid k with ⟨e, he, hk⟩ | hended
        · exact .inl ⟨e, List.mem_cons_of_mem s he, hk⟩
        · exact .inr hended
    · rw [hexecuted]
      cases k with
      | zero => exact .inl ⟨s, List.mem_cons_self, rfl⟩
      | succ k =>
        rw [advance, hstep]
        exact .inr ⟨rfl, (ret_of_done hstep).2.2⟩

/-! ## Depths -/

/-- The numbers of active functions, over all moments of a run from this state. -/
def callDepths (m : Machine) (s : State) : Set Nat :=
  {d | ∃ k, (m.advance k s).state.callDepth = d}

/-- The numbers of operands that activations have, innermost or not, over all moments of a run from
this state: before its first instruction and between any two. -/
def stackDepths (m : Machine) (s : State) : Set Nat :=
  {d | ∃ k, ∃ a ∈ (m.advance k s).state.frames, a.stack.length = d}

/-- An activation that is not innermost was so before, or was innermost with as many operands. -/
theorem tail_of_step (hstep : m.step s = .next s') {a : Activation} (ha : a ∈ s'.frames.tail) :
    a ∈ s.frames.tail ∨ a.stack.length ≤ s.stackDepth := by
  obtain ⟨top, rest, i, hframes, _, hexec⟩ := executes_of_next hstep
  rw [State.stackDepth_eq hframes, hframes]
  cases hexec with
  | effect _ hframes' _ =>
    rw [hframes'] at ha
    exact .inl ha
  | call _ _ _ _ hframes' _ =>
    rw [hframes'] at ha
    rcases List.mem_cons.1 ha with rfl | hbelow
    · -- The operands of the caller are those that the call has left it.
      exact .inr (List.drop_sublist ..).length_le
    · exact .inl hbelow
  | ret _ hrest _ hframes' _ =>
    rw [hframes'] at ha
    rw [hrest]
    exact .inl (List.mem_cons_of_mem _ ha)

/-- In no executed state has any activation more operands than the innermost one had in some, if
this is so of the activations that are not innermost at the start, for which `d` stands in. -/
theorem stack_le_of_executed (n : Nat) {d : Nat} (hs : ∀ a ∈ s.frames.tail, a.stack.length ≤ d) :
    ∀ e ∈ m.executed n s, ∀ a ∈ e.frames,
      a.stack.length ≤ ((m.executed n s).map State.stackDepth).foldl max d := by
  -- From one state to the next `d` takes in the operands of the activation that was innermost.
  induction n generalizing s d with
  | zero => exact List.forall_mem_nil _
  | succ n ih =>
    -- The innermost activation is counted here, and `d` stands in for the others.
    have hhere : ∀ a ∈ s.frames, a.stack.length ≤ max d s.stackDepth := by
      intro a ha
      cases hframes : s.frames with
      | nil =>
        rw [hframes] at ha
        cases ha
      | cons top rest =>
        rw [hframes] at ha hs
        rw [State.stackDepth_eq hframes]
        rcases List.mem_cons.1 ha with rfl | hbelow
        · exact le_max_right ..
        · exact le_max_of_le_left (hs a hbelow)
    rw [executed]
    cases s.instruction? with
    | none => exact List.forall_mem_nil _
    | some i =>
      dsimp only
      cases hstep : m.step s with
      | next mid =>
        -- One that is no longer innermost was so in this state, or not even then.
        have hmid : ∀ a ∈ mid.frames.tail, a.stack.length ≤ max d s.stackDepth := by
          intro a ha
          rcases tail_of_step hstep ha with hbefore | hle
          · exact le_max_of_le_left (hs a hbefore)
          · exact le_max_of_le_right hle
        refine List.forall_mem_cons.2 ⟨fun a ha => ?_, ih hmid⟩
        rw [List.map_cons, List.foldl_cons, List.foldl_max]
        exact le_max_of_le_left (hhere a ha)
      | done _ _ | failed _ _ => exact List.forall_mem_singleton.2 hhere

/-- The greatest value of a measure on some states, found by keeping the greater from zero on. -/
theorem isGreatest_foldl_max {es : List State} (hes : es ≠ []) (measure : State → Nat) :
    IsGreatest {d | ∃ e ∈ es, measure e = d} ((es.map measure).foldl max 0) := by
  -- Zero is no greater than any measure, so starting from it is the same as from the first state.
  have hmax : (es.map measure).max? = some ((es.map measure).foldl max 0) := by
    cases es with
    | nil => exact absurd rfl hes
    | cons e es => rw [List.map_cons, List.max?_cons', List.foldl_cons, Nat.zero_max]
  obtain ⟨hmem, hle⟩ := List.max?_eq_some_iff.1 hmax
  refine ⟨List.mem_map.1 hmem, ?_⟩
  rintro d ⟨e, he, rfl⟩
  exact hle _ (List.mem_map_of_mem he)

/-- A run that ends with a value has executed an instruction. -/
theorem executed_ne_nil (hdone : m.advance n s = .done v last) : m.executed n s ≠ [] := by
  cases n with
  | zero => cases hdone
  | succ n =>
    obtain ⟨i, _, ⟨mid, _, _, hexecuted⟩ | ⟨_, hexecuted⟩⟩ := done_cases hdone
    · rw [hexecuted]
      exact List.cons_ne_nil _ _
    · rw [hexecuted]
      exact List.cons_ne_nil _ _

/-- The greatest number of active functions over all moments of a run that ends with a value is
found among the executed states: the only other moment is the last, and then nothing is active. -/
theorem isGreatest_callDepths (hdone : m.advance n s = .done v last) :
    IsGreatest (m.callDepths s) (((m.executed n s).map State.callDepth).foldl max 0) := by
  obtain ⟨⟨e, he, hdepth⟩, hle⟩ := isGreatest_foldl_max (executed_ne_nil hdone) State.callDepth
  obtain ⟨k, hk⟩ := exists_advance_of_executed he
  refine ⟨⟨k, ?_⟩, ?_⟩
  · rw [hk]
    exact hdepth
  · rintro d ⟨k, rfl⟩
    rcases advance_of_done hdone k with ⟨e, he, hk⟩ | ⟨hk, hframes⟩
    · rw [hk]
      exact hle ⟨e, he, rfl⟩
    · rw [hk]
      show last.frames.length ≤ _
      rw [hframes]
      exact Nat.zero_le _

/-- Likewise for the number of operands of any activation, in a run that starts with one
activation. -/
theorem isGreatest_stackDepths (hdone : m.advance n s = .done v last) (hs : s.frames.tail = []) :
    IsGreatest (m.stackDepths s) (((m.executed n s).map State.stackDepth).foldl max 0) := by
  obtain ⟨⟨e, he, hdepth⟩, _⟩ := isGreatest_foldl_max (executed_ne_nil hdone) State.stackDepth
  obtain ⟨k, hk⟩ := exists_advance_of_executed he
  obtain ⟨i, hi⟩ := instruction?_of_executed he
  obtain ⟨a, rest, hframes, _⟩ := State.frames_of_instruction? hi
  refine ⟨⟨k, a, ?_, ?_⟩, ?_⟩
  · rw [hk]
    show a ∈ e.frames
    rw [hframes]
    exact List.mem_cons_self
  · rw [← hdepth, State.stackDepth_eq hframes]
  · -- `stack_le_of_executed` with nothing to stand in for, since no other activation is there at
    -- first.
    rintro d ⟨k, a, ha, rfl⟩
    rcases advance_of_done hdone k with ⟨e, he, hk⟩ | ⟨hk, hframes⟩
    · rw [hk] at ha
      refine stack_le_of_executed n ?_ e he a ha
      rw [hs]
      exact List.forall_mem_nil _
    · rw [hk] at ha
      have hnone : a ∈ last.frames := ha
      rw [hframes] at hnone
      cases hnone

end Machine

end RecordMachine
