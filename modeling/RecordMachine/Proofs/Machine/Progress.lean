import RecordMachine.Proofs.Machine.Trace

/-!
# Where a run has got to

`m.advance n s` is what the first `n` steps from `s` come to: the state that they lead to, or the
end of the run if it ends before. The answers of `Machine.loop` and `Machine.run` are those of
`Machine.advance` (`Machine.loop_eq_advance`, `Machine.run_of_entry`), so that what holds of
`Machine.advance` for all `n` holds at every moment of a run and at its end. Two machines can be
compared step by step in this form, whether or not their runs end.

`m.executed n s` lists the states in which these steps found an instruction to execute, the one
whose instruction failed included.
-/

namespace RecordMachine

/-- The next instruction is that of the innermost activation. -/
theorem State.frames_of_instruction? {s : State} {i : Instruction} (hi : s.instruction? = some i) :
    ∃ a rest, s.frames = a :: rest ∧ a.blueprint.code[a.pc]? = some i := by
  unfold State.instruction? at hi
  cases hframes : s.frames with
  | nil =>
    rw [hframes] at hi
    cases hi
  | cons a rest =>
    rw [hframes] at hi
    exact ⟨a, rest, rfl, hi⟩

def Step.state : Step → State
  | .next s => s
  | .done _ s => s
  | .failed _ s => s

namespace Machine

/-- What the first `n` steps come to. A run that has ended goes no further. -/
def advance (m : Machine) : Nat → State → Step
  | 0, s => .next s
  | n + 1, s =>
    match m.step s with
    | .next s' => m.advance n s'
    | ended => ended

/-- The states in which the first `n` steps found an instruction to execute. -/
def executed (m : Machine) : Nat → State → List State
  | 0, _ => []
  | n + 1, s =>
    match s.instruction? with
    | none => []
    | some _ =>
      match m.step s with
      | .next s' => s :: m.executed n s'
      | _ => [s]

def executions (m : Machine) (fuel : Nat) (s : State) : List State :=
  match m.entry with
  | .error _ => []
  | .ok b => m.executed fuel (m.begin s b)

variable {m : Machine} {s s' : State}

/-- Without an instruction to execute, a step fails and changes nothing. -/
theorem step_of_instruction?_none (m : Machine) (hs : s.instruction? = none) :
    ∃ fault, m.step s = .failed fault s := by
  rcases m.step_cases s with ⟨_, hstep⟩ | ⟨_, _, _, _, hstep⟩ | ⟨a, rest, i, hframes, hi, _⟩
  · exact ⟨_, hstep⟩
  · exact ⟨_, hstep⟩
  · unfold State.instruction? at hs
    rw [hframes] at hs
    cases hi.symm.trans hs

/-- One step more: the run goes on from the state that the first step leads to, or has ended with
it. -/
theorem advance_cases (m : Machine) (n : Nat) (s : State) :
    (∃ mid, m.step s = .next mid ∧ m.advance (n + 1) s = m.advance n mid) ∨
      (m.step s).answer? ≠ none ∧ m.advance (n + 1) s = m.step s := by
  rw [advance]
  cases m.step s with
  | next mid => exact .inl ⟨mid, rfl, rfl⟩
  | done v last => exact .inr ⟨Option.some_ne_none _, rfl⟩
  | failed fault last => exact .inr ⟨Option.some_ne_none _, rfl⟩

/-- The states that count as executed have an instruction to execute. -/
theorem instruction?_of_executed {n : Nat} {e : State} (he : e ∈ m.executed n s) :
    ∃ i, e.instruction? = some i := by
  -- The induction follows `executed`, which adds a state only after it has found its instruction.
  induction n generalizing s with
  | zero => cases he
  | succ n ih =>
    rw [executed] at he
    cases hi : s.instruction? with
    | none =>
      rw [hi] at he
      cases he
    | some i =>
      rw [hi] at he
      dsimp only at he
      cases hstep : m.step s with
      | next mid =>
        rw [hstep] at he
        rcases List.mem_cons.1 he with rfl | hlater
        · exact ⟨i, hi⟩
        · exact ih hlater
      | done _ _ | failed _ _ =>
        rw [hstep] at he
        rw [List.mem_singleton.1 he]
        exact ⟨i, hi⟩

/-- What holds at the start and is kept by every step holds in all states that count as executed. -/
theorem executed_invariant {P : State → Prop} (hkeep : ∀ s s', P s → m.step s = .next s' → P s')
    (n : Nat) {s : State} (hs : P s) : ∀ e ∈ m.executed n s, P e := by
  induction n generalizing s with
  | zero => exact List.forall_mem_nil P
  | succ n ih =>
    rw [executed]
    cases s.instruction? with
    | none => exact List.forall_mem_nil P
    | some i =>
      dsimp only
      cases hstep : m.step s with
      | next mid => exact List.forall_mem_cons.2 ⟨hs, ih (hkeep s mid hs hstep)⟩
      | done _ _ | failed _ _ => exact List.forall_mem_singleton.2 hs

/-- A run has an answer where it has ended. -/
theorem loop_eq_advance (m : Machine) (n : Nat) (s : State) :
    m.loop n s = (m.advance n s).answer? := by
  induction n generalizing s with
  | zero => rfl
  | succ n ih =>
    rw [loop, advance]
    cases m.step s with
    | next mid => exact ih mid
    | done v last => rfl
    | failed fault last => rfl

/-- A run without a function to start in is refused, and nothing changes. -/
theorem run_of_refused {cause : Cause} (hentry : m.entry = .error cause) (n : Nat) (s : State) :
    m.run n s = some (.error ⟨cause, none⟩, s) := by
  unfold run
  rw [hentry]

/-- A run is what its steps come to, with the report of its end. -/
theorem run_of_entry {b : Blueprint} (hentry : m.entry = .ok b) (n : Nat) (s : State) :
    m.run n s = (m.advance n (m.begin s b)).answer?.map fun (result, s') =>
      (result, finish result s') := by
  unfold run
  rw [hentry, ← loop_eq_advance]

/-- Where a run has ended, its steps have. -/
theorem advance_of_run {b : Blueprint} {n : Nat} {result : Except Fault Value}
    (hentry : m.entry = .ok b) (hrun : m.run n s = some (result, s')) :
    ∃ ended, (m.advance n (m.begin s b)).answer? = some (result, ended) ∧
      s' = finish result ended := by
  rw [run_of_entry hentry] at hrun
  obtain ⟨⟨result', ended⟩, hanswer, heq⟩ := Option.map_eq_some_iff.1 hrun
  cases heq
  exact ⟨ended, hanswer, rfl⟩

section Finish

variable (result : Except Fault Value) (s : State)

/-! The end of a run is reported, and nothing else. -/

@[simp] theorem frames_finish : (finish result s).frames = s.frames := by
  cases result <;> rfl

@[simp] theorem heap_finish : (finish result s).heap = s.heap := by
  cases result <;> rfl

@[simp] theorem console_finish : (finish result s).console = s.console := by
  cases result <;> rfl

@[simp] theorem profile_finish : (finish result s).profile = s.profile := by
  cases result <;> rfl

end Finish

end Machine

/-- The state of an answer is the one that the step has led to. -/
theorem Step.state_of_answer? {r : Step} {result : Except Fault Value} {s : State}
    (h : r.answer? = some (result, s)) : r.state = s := by
  cases r with
  | next _ => cases h
  | done _ _ | failed _ _ =>
    cases h
    rfl

/-- An answer with a fault comes from a step that has failed. -/
theorem Step.eq_of_answer? {r : Step} {fault : Fault} {s : State}
    (h : r.answer? = some (.error fault, s)) : r = .failed fault s := by
  cases r with
  | next _ => cases h
  | done _ _ => cases h
  | failed _ _ =>
    cases h
    rfl

/-! ## Faults of the program's functions -/

/-- Whether a fault of this category is about which functions there are and how many are active. -/
def FaultKind.isAboutCalls : FaultKind → Bool
  | .unknownFunction | .noEntryPoint | .callDepthExceeded => true
  | _ => false

/-- What an instruction blames is nothing about the functions of the program: these faults come from
calls and from the start of a run. -/
theorem Instruction.Blames.not_isAboutCalls {i : Instruction} {a : Activation} {h : Heap}
    {cause : Cause} (hblames : i.Blames a h cause) : cause.kind.isAboutCalls = false := by
  cases hblames with
  | operand _ | stack | slot _ | field | exhausted => rfl
  | values hkind =>
    -- Faults about operands are of other categories.
    revert hkind
    cases cause.kind <;> decide
  | object _ hobject =>
    unfold Heap.object at hobject
    split at hobject
    · cases hobject
      rfl
    · split at hobject <;> cases hobject <;> rfl
  | console hkind =>
    rw [hkind]
    rfl

end RecordMachine
