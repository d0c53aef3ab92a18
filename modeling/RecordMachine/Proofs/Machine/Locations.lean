import RecordMachine.Proofs.Machine.Trace

/-!
# Where a fault is placed

The machine takes down where an instruction stands before it executes it: before the index of the
activation moves on and before a call or a return puts another activation in front. A fault that the
instruction raises is placed there (`Machine.Raises`). The faults without a place are those that no
instruction has raised: the run could not start, the innermost activation had no instruction left
(`State.PastEnd`), or the instruction was to be shown first and that failed (`Machine.Unshown`).

`Machine.step_failed_cases` says this of one step. A run ends with its first step that fails, so
that its fault has no place exactly if the run comes to one of these states
(`Machine.faults_located`).
-/

namespace RecordMachine

/-- The innermost activation is beyond the last instruction of its blueprint. -/
def State.PastEnd (s : State) : Prop :=
  ∃ a rest, s.frames = a :: rest ∧ a.blueprint.code.size ≤ a.pc

namespace Machine

/-- The machine has to show the next instruction, and the console does not take the text. -/
def Unshown (m : Machine) (s : State) : Prop :=
  m.settings.trace = true ∧ ∃ a rest i cause, s.frames = a :: rest ∧
    a.blueprint.code[a.pc]? = some i ∧ (s.console.print (traceBlock a i s.heap)).1 = .error cause

/-- The next instruction, which stands at `place`, fails for `cause` and leaves the state `ended`
behind. -/
def Raises (m : Machine) (s : State) (cause : Cause) (place : Location) (ended : State) : Prop :=
  ∃ a rest i ready, s.frames = a :: rest ∧ a.blueprint.code[a.pc]? = some i ∧
    ready.frames = { a with pc := a.pc + 1 } :: rest ∧ ready.heap = s.heap ∧
    m.execute ready { a with pc := a.pc + 1 } rest i = .error cause ended ∧
    place = ⟨a.blueprint.name, a.pc, i.text⟩

/-- The run that starts from `s₀` comes to the state `s` without having ended. -/
def Visits (m : Machine) (s₀ s : State) : Prop :=
  ∃ b is, m.entry = .ok b ∧ m.Trace (m.begin s₀ b) is s

variable {m : Machine} {s s' : State}

/-! ## One step -/

/-- Beyond the last instruction a step fails, and its fault has no place. -/
theorem step_of_pastEnd (m : Machine) (hs : s.PastEnd) :
    ∃ cause, m.step s = .failed ⟨cause, none⟩ s := by
  obtain ⟨a, rest, hframes, hend⟩ := hs
  have hi : a.blueprint.code[a.pc]? = none := by simp [hend]
  refine ⟨.fellOff a.blueprint.name a.pc, ?_⟩
  unfold step
  rw [hframes]
  simp only [hi]

/-- Whether an instruction can be shown depends on the console and the heap alone. -/
theorem showInstruction_fst (htrace : m.settings.trace = true) (frames : List Activation)
    (a : Activation) (i : Instruction) :
    (m.showInstruction { s with frames } a i).1 = (s.console.print (traceBlock a i s.heap)).1 := by
  unfold showInstruction
  rw [if_pos htrace]
  rfl

/-- Showing the next instruction fails exactly in the states that are called unshown. -/
theorem unshown_iff {a : Activation} {rest : List Activation} {i : Instruction}
    (hframes : s.frames = a :: rest) (hi : a.blueprint.code[a.pc]? = some i) :
    m.Unshown s ↔ ∃ cause shown,
      m.showInstruction { s with frames := { a with pc := a.pc + 1 } :: rest } a i =
        (.error cause, shown) := by
  constructor
  · rintro ⟨htrace, a', rest', i', cause, hframes', hi', hprint⟩
    cases hframes.symm.trans hframes'
    cases hi.symm.trans hi'
    have hfst := (showInstruction_fst htrace ({ a with pc := a.pc + 1 } :: rest) a i).trans hprint
    exact ⟨cause, _, Prod.ext hfst rfl⟩
  · rintro ⟨cause, shown, hshow⟩
    -- Showing an instruction fails only if instructions are shown at all.
    have htrace : m.settings.trace = true := by
      by_cases htrace : m.settings.trace = true
      · exact htrace
      · rw [showInstruction, if_neg htrace] at hshow
        cases hshow
    have hfst := showInstruction_fst (s := s) htrace ({ a with pc := a.pc + 1 } :: rest) a i
    rw [hshow] at hfst
    exact ⟨htrace, a, rest, i, cause, hframes, hi, hfst.symm⟩

/-- Where the instruction cannot be shown a step fails, and its fault has no place. -/
theorem step_of_unshown (hs : m.Unshown s) :
    ∃ cause ended, m.step s = .failed ⟨cause, none⟩ ended := by
  have hunshown := hs
  obtain ⟨_, a, rest, i, _, hframes, hi, _⟩ := hs
  obtain ⟨cause, ended, hshow⟩ := (unshown_iff hframes hi).1 hunshown
  refine ⟨cause, ended, ?_⟩
  unfold step
  rw [hframes]
  simp only [hi, hshow]

/-- A step that fails with an activation in place has nothing to execute, cannot show its
instruction, or has executed an instruction that raised the fault. -/
theorem step_failed_cases {fault : Fault} (hs : s.frames ≠ [])
    (hstep : m.step s = .failed fault s') :
    ((s.PastEnd ∨ m.Unshown s) ∧ fault.location = none) ∨
      ∃ place, fault.location = some place ∧ m.Raises s fault.cause place s' := by
  cases hframes : s.frames with
  | nil => exact absurd hframes hs
  | cons a rest =>
    cases hi : a.blueprint.code[a.pc]? with
    | none =>
      -- There is no instruction at the index.
      have hpast : s.PastEnd := ⟨a, rest, hframes, Array.getElem?_eq_none_iff.1 hi⟩
      obtain ⟨cause, hfell⟩ := m.step_of_pastEnd hpast
      cases hfell.symm.trans hstep
      exact .inl ⟨.inl hpast, rfl⟩
    | some i =>
      obtain ⟨shown, hsframes, hsheap, _, hshow⟩ :=
        showInstruction_cases m { s with frames := { a with pc := a.pc + 1 } :: rest } a i
      rcases hshow with hshow | ⟨cause, _, _, hshow⟩
      · -- The instruction has been shown, so that executing it has failed.
        rw [step_of_shown hframes hi hshow] at hstep
        cases hresult : m.execute (countInstruction shown a i) { a with pc := a.pc + 1 } rest i with
        | ok answer ended =>
          rw [hresult] at hstep
          cases answer <;> cases hstep
        | error cause ended =>
          rw [hresult] at hstep
          cases hstep
          exact .inr ⟨_, rfl, a, rest, i, countInstruction shown a i, hframes, hi, hsframes, hsheap,
            hresult, rfl⟩
      · have hunshown : m.Unshown s := (unshown_iff hframes hi).2 ⟨cause, shown, hshow⟩
        obtain ⟨cause', ended, hfails⟩ := step_of_unshown hunshown
        cases hfails.symm.trans hstep
        exact .inl ⟨.inr hunshown, rfl⟩

/-! ## The states of a run -/

/-- The instructions of a trace are its steps. -/
theorem Trace.steps {is : List Instruction} (htrace : m.Trace s is s') :
    m.Steps is.length s s' := by
  induction htrace with
  | nil s => exact .refl s
  | cons _ hstep _ ih => exact .head hstep ih

/-- A step that does not end the run leaves an activation to go on with. -/
theorem frames_ne_nil_of_next (hstep : m.step s = .next s') : s'.frames ≠ [] := by
  obtain ⟨a, rest, i, _, _, hexec⟩ := executes_of_next hstep
  cases hexec with
  | effect _ hframes' _ => simp [hframes']
  | call _ _ _ _ hframes' _ => simp [hframes']
  | ret _ _ _ hframes' _ => simp [hframes']

/-- In all states of a run some function is active. -/
theorem Visits.frames_ne_nil {s₀ : State} (hs : m.Visits s₀ s) : s.frames ≠ [] := by
  obtain ⟨b, is, _, htrace⟩ := hs
  refine htrace.invariant (P := fun s => s.frames ≠ []) ?_ ?_
  · exact fun _ _ _ hstep => frames_ne_nil_of_next hstep
  · simp [begin, State.report]

/-- Where a run comes to a step that fails, it ends with that fault. -/
theorem Visits.eq_of_run {s₀ ended : State} {fault : Fault} {fuel : Nat}
    {result : Except Fault Value} (hs : m.Visits s₀ s) (hstep : m.step s = .failed fault ended)
    (hrun : m.run fuel s₀ = some (result, s')) : result = .error fault := by
  obtain ⟨b, is, hentry, htrace⟩ := hs
  -- The run takes the steps to this state, and then the one that fails.
  have hloop : m.loop (is.length + 1) (m.begin s₀ b) = some (.error fault, ended) := by
    rw [loop_of_steps htrace.steps]
    simp only [loop, hstep]
  unfold run at hrun
  rw [hentry] at hrun
  obtain ⟨⟨result', ended'⟩, hloop', hanswer⟩ := Option.map_eq_some_iff.1 hrun
  cases hanswer
  cases loop_unique hloop hloop'
  rfl

/-- A run has no function to start in exactly if there is none of that name, or one with
parameters. -/
theorem entry_eq_error_iff (m : Machine) :
    (∃ cause, m.entry = .error cause) ↔
      m.bytecode.get? m.settings.entryPoint = none ∨
        ∃ b, m.bytecode.get? m.settings.entryPoint = some b ∧ b.params ≠ 0 := by
  unfold entry
  cases hget : m.bytecode.get? m.settings.entryPoint with
  | none => simp
  | some b => by_cases hparams : b.params = 0 <;> simp [hparams]

/-! ## Runs -/

/-- Faults are placed exactly. The fault that a run ends with has no place if and only if there is
no function to start in, or it takes parameters, or the run comes to a state whose innermost
activation is beyond its last instruction, or to one whose instruction is to be shown and cannot be.
Otherwise its place is that of the instruction that raised it: the name of the blueprint of the
activation that was innermost when the instruction was fetched, the index of the instruction and its
text. -/
theorem faults_located {fuel : Nat} {s₀ : State} {fault : Fault}
    (hrun : m.run fuel s₀ = some (.error fault, s')) :
    (fault.location = none ↔
      (m.bytecode.get? m.settings.entryPoint = none ∨
        ∃ b, m.bytecode.get? m.settings.entryPoint = some b ∧ b.params ≠ 0) ∨
      (∃ s, m.Visits s₀ s ∧ s.PastEnd) ∨ ∃ s, m.Visits s₀ s ∧ m.Unshown s) ∧
    ∀ place, fault.location = some place →
      ∃ s ended, m.Visits s₀ s ∧ m.Raises s fault.cause place ended ∧
        s' = finish (.error fault) ended := by
  rw [← m.entry_eq_error_iff]
  rcases run_cases hrun with
    ⟨cause, hentry, hresult, _⟩ | ⟨b, is, last, ended, hentry, htrace, hanswer, hended⟩
  · cases hresult
    refine ⟨⟨fun _ => .inl ⟨cause, hentry⟩, fun _ => rfl⟩, ?_⟩
    intro place hplace
    cases hplace
  · -- The run has started, and its last step has failed.
    have hlast : m.Visits s₀ last := ⟨b, is, hentry, htrace⟩
    have hstep : m.step last = .failed fault ended := by
      cases hstep : m.step last <;> rw [hstep] at hanswer <;> cases hanswer
      rfl
    constructor
    · constructor
      · intro hnone
        rcases step_failed_cases hlast.frames_ne_nil hstep with
          ⟨hpast | hunshown, _⟩ | ⟨place, hplace, _⟩
        · exact .inr (.inl ⟨last, hlast, hpast⟩)
        · exact .inr (.inr ⟨last, hlast, hunshown⟩)
        · rw [hnone] at hplace
          cases hplace
      · -- The run has ended where it came to such a state.
        rintro (⟨cause, herror⟩ | ⟨s, hs, hpast⟩ | ⟨s, hs, hunshown⟩)
        · cases herror.symm.trans hentry
        · obtain ⟨cause, hfell⟩ := m.step_of_pastEnd hpast
          cases hs.eq_of_run hfell hrun
          rfl
        · obtain ⟨cause, left, hfails⟩ := step_of_unshown hunshown
          cases hs.eq_of_run hfails hrun
          rfl
    · intro place hplace
      rcases step_failed_cases hlast.frames_ne_nil hstep with
        ⟨_, hnone⟩ | ⟨place', hplace', hraises⟩
      · rw [hnone] at hplace
        cases hplace
      · cases hplace.symm.trans hplace'
        exact ⟨last, ended, hlast, hraises, hended⟩

/-- A program whose second function calls the third with one argument too few. -/
def shortOfArguments : Machine where
  bytecode := .ofList
    [⟨"main", 0, #[.call "relay", .plain .ret]⟩,
      ⟨"relay", 0, #[.push (.int 1), .call "pair", .plain .ret]⟩,
      ⟨"pair", 2, #[.load 1, .plain .ret]⟩]

/-- The run fails at the call, which stands in the second function, and has neither come to the end
of a blueprint nor failed to show an instruction. -/
theorem faults_located_shortOfArguments :
    let place : Location := ⟨"relay", 1, "CALL pair"⟩
    ∃ s', shortOfArguments.run 3 (shortOfArguments.initial {}) =
        some (.error ⟨.emptyStack, some place⟩, s') ∧
      (¬ ∃ s, shortOfArguments.Visits (shortOfArguments.initial {}) s ∧ s.PastEnd) ∧
      (¬ ∃ s, shortOfArguments.Visits (shortOfArguments.initial {}) s ∧
        shortOfArguments.Unshown s) ∧
      ∃ s ended, shortOfArguments.Visits (shortOfArguments.initial {}) s ∧
        shortOfArguments.Raises s .emptyStack place ended ∧
        s' = finish (.error ⟨.emptyStack, some place⟩) ended := by
  intro place
  have hrun : ∃ s', shortOfArguments.run 3 (shortOfArguments.initial {}) =
      some (.error ⟨.emptyStack, some place⟩, s') := ⟨_, rfl⟩
  obtain ⟨s', hrun⟩ := hrun
  obtain ⟨hiff, hplaced⟩ := faults_located hrun
  refine ⟨s', hrun, ?_, ?_, hplaced place rfl⟩
  · intro hpast
    cases hiff.2 (.inr (.inl hpast))
  · intro hunshown
    cases hiff.2 (.inr (.inr hunshown))

end Machine

end RecordMachine
