import RecordMachine.Machine.Step

/-!
# Runs of a machine

`m.Steps n s s'` says that `n` steps lead from `s` to `s'`, none of which ends the run.
`Machine.loop` is such a run followed by a step that ends it (`Machine.loop_of_steps`), and the
answer of a run does not depend on how many steps are allowed (`Machine.loop_unique`).

A single step fetches an instruction, shows and counts it, and executes it. Showing and counting
touch neither the activations nor the heap, so that a step is an execution (`Machine.step_eq`)
unless the trace could not be written.
-/

namespace RecordMachine

/-- All that printing fails for is a matter of the console. -/
theorem Console.kind_of_print_error {c c' : Console} {text : String} {cause : Cause}
    (h : c.print text = (.error cause, c')) : cause.kind = .io := by
  unfold Console.print at h
  split at h
  · cases h
    rfl
  · split at h
    · next c₁ _ =>
      unfold Console.flush at h
      dsimp only at h
      split at h
      · cases h
        rfl
      · cases h
    · next cause' c₁ hwrite =>
      cases h
      unfold Console.write at hwrite
      split at hwrite
      · cases hwrite
      · dsimp only at hwrite
        split at hwrite
        · cases hwrite
          rfl
        · cases hwrite

/-- All that reading fails for is a matter of the console. -/
theorem Console.kind_of_readLine_error {c c' : Console} {cause : Cause}
    (h : c.readLine = (.error cause, c')) : cause.kind = .io := by
  unfold Console.readLine at h
  split at h
  · cases h
    rfl
  · dsimp only at h
    split at h
    · cases h
    · cases h
      rfl

namespace Machine

variable {m : Machine}

/-! ## Sequences of steps -/

/-- `n` steps lead from one state to another, and none of them ends the run. -/
inductive Steps (m : Machine) : Nat → State → State → Prop where
  | refl (s : State) : Steps m 0 s s
  | head {n : Nat} {s mid s' : State} (hstep : m.step s = .next mid) (hrest : Steps m n mid s') :
      Steps m (n + 1) s s'

theorem Steps.single {s s' : State} (h : m.step s = .next s') : m.Steps 1 s s' :=
  .head h (.refl s')

/-- Steps can be taken in two stretches. Induction on the first one. -/
theorem Steps.trans {k n : Nat} {s mid s' : State} (h : m.Steps k s mid) (h' : m.Steps n mid s') :
    m.Steps (k + n) s s' := by
  induction h with
  | refl s =>
    rw [Nat.zero_add]
    exact h'
  | head hstep _ ih =>
    rw [Nat.add_right_comm]
    exact .head hstep (ih h')

/-- A run goes on from where some steps lead. -/
theorem loop_of_steps {k : Nat} {s s' : State} (h : m.Steps k s s') (n : Nat) :
    m.loop (k + n) s = m.loop n s' := by
  induction h with
  | refl s => rw [Nat.zero_add]
  | head hstep _ ih =>
    rw [Nat.add_right_comm, loop, hstep]
    exact ih

/-- A run that has ended ends in the same way if more steps are allowed. -/
theorem loop_of_le {k n : Nat} {s : State} {r : Except Fault Value × State} (hle : k ≤ n)
    (h : m.loop k s = some r) : m.loop n s = some r := by
  -- Both runs take the same steps, and the one with fewer steps has ended.
  induction k generalizing n s with
  | zero => cases h
  | succ k ih =>
    obtain ⟨n, rfl⟩ : ∃ n', n = n' + 1 := ⟨n - 1, by omega⟩
    rw [loop] at h ⊢
    cases hstep : m.step s with
    | next mid =>
      rw [hstep] at h
      exact ih (by omega) h
    | done v s' =>
      rw [hstep] at h
      exact h
    | failed fault s' =>
      rw [hstep] at h
      exact h

/-- A run that has not ended had not ended before. -/
theorem loop_eq_none_of_le {k n : Nat} {s : State} (hle : k ≤ n) (h : m.loop n s = none) :
    m.loop k s = none := by
  cases hk : m.loop k s with
  | none => rfl
  | some r =>
    rw [loop_of_le hle hk] at h
    cases h

/-- However many steps are allowed, a run has one answer at most. -/
theorem loop_unique {k n : Nat} {s : State} {r r' : Except Fault Value × State}
    (h : m.loop k s = some r) (h' : m.loop n s = some r') : r = r' := by
  have hk := loop_of_le (Nat.le_max_left k n) h
  have hn := loop_of_le (Nat.le_max_right k n) h'
  rw [hk] at hn
  exact Option.some.inj hn

/-! ## One step -/

/-- How the execution of an instruction at a place continues or ends the run. -/
def stepOfResult (place : Location) : EStateM.Result Cause State (Option Value) → Step
  | .ok none s => .next s
  | .ok (some v) s => .done v s
  | .error cause s => .failed ⟨cause, some place⟩ s

/-- Showing an instruction leaves the activations and the heap alone. It cannot fail if no trace is
wanted, and the console is then the same as well. -/
theorem showInstruction_cases (m : Machine) (s : State) (a : Activation) (i : Instruction) :
    ∃ shown, shown.frames = s.frames ∧ shown.heap = s.heap ∧
      (m.settings.trace = false → shown.console = s.console) ∧
      (m.showInstruction s a i = (.ok (), shown) ∨
        ∃ cause, m.settings.trace = true ∧ cause.kind = .io ∧
          m.showInstruction s a i = (.error cause, shown)) := by
  unfold showInstruction
  cases htrace : m.settings.trace with
  | false => exact ⟨s, rfl, rfl, fun _ => rfl, .inl (by simp)⟩
  | true =>
    simp only [if_true]
    -- Whatever comes of printing, only the console and the log have changed.
    cases hprint : (s.report (.execute a.blueprint.name a.pc i a.operands)).console.print
        (traceBlock a i (s.report (.execute a.blueprint.name a.pc i a.operands)).heap) with
    | mk result console =>
      refine ⟨{ s.report (.execute a.blueprint.name a.pc i a.operands) with console }, rfl, rfl,
        by simp, ?_⟩
      cases result with
      | ok u => exact .inl rfl
      | error cause => exact .inr ⟨cause, trivial, Console.kind_of_print_error hprint, rfl⟩

/-- Once its instruction has been shown, a step counts and executes it. -/
theorem step_of_shown {s shown : State} {a : Activation} {rest : List Activation} {i : Instruction}
    (hframes : s.frames = a :: rest) (hi : a.blueprint.code[a.pc]? = some i)
    (hshow : m.showInstruction { s with frames := { a with pc := a.pc + 1 } :: rest } a i =
      (.ok (), shown)) :
    m.step s = stepOfResult ⟨a.blueprint.name, a.pc, i.text⟩
      (m.execute (countInstruction shown a i) { a with pc := a.pc + 1 } rest i) := by
  unfold step
  rw [hframes]
  simp only [hi, hshow]
  -- What is executed does not matter here, only how its result is passed on.
  generalize m.execute (countInstruction shown a i) { a with pc := a.pc + 1 } rest i = result
  rcases result with ⟨_ | v, s'⟩ | ⟨cause, s'⟩ <;> rfl

/-- A step executes the next instruction of the innermost activation, with its index advanced and
heap and console as they were; only if a trace is wanted, the console may have been written to, and
that may have failed. -/
theorem step_eq {s : State} {a : Activation} {rest : List Activation} {i : Instruction}
    (hframes : s.frames = a :: rest) (hi : a.blueprint.code[a.pc]? = some i) :
    ∃ ready : State, ready.frames = { a with pc := a.pc + 1 } :: rest ∧ ready.heap = s.heap ∧
      (m.settings.trace = false → ready.console = s.console) ∧
      (m.step s = stepOfResult ⟨a.blueprint.name, a.pc, i.text⟩
          (m.execute ready { a with pc := a.pc + 1 } rest i) ∨
        ∃ cause, m.settings.trace = true ∧ cause.kind = .io ∧
          m.step s = .failed ⟨cause, none⟩ ready) := by
  obtain ⟨shown, hsframes, hsheap, hsconsole, hshow⟩ :=
    showInstruction_cases m { s with frames := { a with pc := a.pc + 1 } :: rest } a i
  rcases hshow with hshow | ⟨cause, htrace, hkind, hshow⟩
  · -- The instruction is counted after it has been shown, which changes the profile only.
    exact ⟨countInstruction shown a i, hsframes, hsheap, hsconsole,
      .inl (step_of_shown hframes hi hshow)⟩
  · refine ⟨shown, hsframes, hsheap, hsconsole, .inr ⟨cause, htrace, hkind, ?_⟩⟩
    unfold step
    rw [hframes]
    simp only [hi, hshow]

end Machine

end RecordMachine
