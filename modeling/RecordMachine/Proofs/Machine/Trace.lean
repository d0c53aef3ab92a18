import RecordMachine.Proofs.Machine.Effects

/-!
# Runs, instruction by instruction

`Machine.Executes` lists all that one step of a machine can come to when it has an instruction to
execute (`Machine.step_executes`). Only the innermost activation is ever at work: apart from a call,
which puts an activation in front of it, and a return, which removes it and hands the value to the
next one, a step replaces the innermost activation and leaves the others as they are.

`m.Trace s is s'` says that executing `is` leads from `s` to `s'` without ending the run. A run is a
trace followed by one step that ends it (`Machine.run_cases`).
-/

namespace RecordMachine

def State.instruction? (s : State) : Option Instruction :=
  match s.frames with
  | [] => none
  | a :: _ => a.blueprint.code[a.pc]?

/-- The answer of a run that the step ends. -/
def Step.answer? : Step → Option (Except Fault Value × State)
  | .next _ => none
  | .done v s => some (.ok v, s)
  | .failed fault s => some (.error fault, s)

namespace Machine

/-! ## One step -/

/-- Why a call of a function is refused, where `depth` activations are in progress and the innermost
one has these operands. -/
inductive Refuses (m : Machine) (depth : Nat) (stack : List Value) (name : String) :
    Cause → Prop where
  | unknown (hcallee : m.bytecode.get? name = none) :
      Refuses m depth stack name (.unknownFunction name)
  | limit {limit : Nat} (hlimit : m.atLimit depth = some limit) :
      Refuses m depth stack name (.callDepth name limit)
  | arguments {callee : Blueprint} (hcallee : m.bytecode.get? name = some callee)
      (hfew : stack.length < callee.params) : Refuses m depth stack name .emptyStack

/-- What executing the instruction `i` of the innermost activation `a` comes to, with the heap `h`
and the activations `rest` below. -/
inductive Executes (m : Machine) (h : Heap) (a : Activation) (rest : List Activation)
    (i : Instruction) : Step → Prop where
  | effect {top : Activation} {h' : Heap} {s : State}
      (heffect : i.Effect { a with pc := a.pc + 1 } h top h')
      (hframes : s.frames = top :: rest) (hheap : s.heap = h') : Executes m h a rest i (.next s)
  | call {name : String} {callee : Blueprint} {s : State} (hop : i.opcode = .call)
      (hname : Operand.name? i.operand = some name) (hcallee : m.bytecode.get? name = some callee)
      (henough : callee.params ≤ a.stack.length)
      (hframes : s.frames = Activation.enter callee (a.stack.take callee.params).reverse ::
        { a with pc := a.pc + 1, stack := a.stack.drop callee.params } :: rest)
      (hheap : s.heap = h) : Executes m h a rest i (.next s)
  | ret {caller : Activation} {others : List Activation} {v : Value} {left : List Value} {s : State}
      (hop : i.opcode = .ret) (hrest : rest = caller :: others) (hstack : a.stack = v :: left)
      (hframes : s.frames = caller.push v :: others) (hheap : s.heap = h) :
      Executes m h a rest i (.next s)
  | done {v : Value} {left : List Value} {s : State} (hop : i.opcode = .ret) (hrest : rest = [])
      (hstack : a.stack = v :: left) (hframes : s.frames = []) (hheap : s.heap = h) :
      Executes m h a rest i (.done v s)
  | fails {cause : Cause} {place : Location} {left : List Value} {s : State}
      (hblames : i.Blames { a with pc := a.pc + 1 } h cause) (hleft : left <:+ a.stack)
      (hframes : s.frames = { a with pc := a.pc + 1, stack := left } :: rest)
      (hheap : s.heap = h) : Executes m h a rest i (.failed ⟨cause, some place⟩ s)
  | refused {name : String} {cause : Cause} {place : Location} {s : State} (hop : i.opcode = .call)
      (hname : Operand.name? i.operand = some name)
      (hcause : m.Refuses (rest.length + 1) a.stack name cause)
      (hframes : s.frames = { a with pc := a.pc + 1 } :: rest) (hheap : s.heap = h) :
      Executes m h a rest i (.failed ⟨cause, some place⟩ s)
  | unwritten {cause : Cause} {s : State} (htrace : m.settings.trace = true)
      (hkind : cause.kind = .io) (hframes : s.frames = { a with pc := a.pc + 1 } :: rest)
      (hheap : s.heap = h) : Executes m h a rest i (.failed ⟨cause, none⟩ s)

variable {m : Machine}

/-- A call puts the new activation in front, with the operands that are its arguments, or is
refused. -/
theorem enter_cases (s : State) (a : Activation) (rest : List Activation) (name : String) :
    (∃ callee s', m.enter s a rest name = .ok s' ∧ m.bytecode.get? name = some callee ∧
      callee.params ≤ a.stack.length ∧
      s'.frames = Activation.enter callee (a.stack.take callee.params).reverse ::
        { a with stack := a.stack.drop callee.params } :: rest ∧ s'.heap = s.heap) ∨
    ∃ cause, m.enter s a rest name = .error cause ∧
      m.Refuses (rest.length + 1) a.stack name cause := by
  unfold enter
  cases hcallee : m.bytecode.get? name with
  | none => exact .inr ⟨_, rfl, .unknown hcallee⟩
  | some callee =>
    dsimp only
    cases hlimit : m.atLimit (rest.length + 1) with
    | some limit => exact .inr ⟨_, rfl, .limit hlimit⟩
    | none =>
      unfold Activation.popMany
      dsimp only
      -- The limit is asked for first: beyond it, a call may lack its arguments as well.
      by_cases henough : callee.params ≤ a.stack.length
      · rw [if_pos henough]
        exact .inl ⟨callee, _, rfl, rfl, henough, rfl, rfl⟩
      · rw [if_neg henough]
        exact .inr ⟨_, rfl, .arguments hcallee (by omega)⟩

/-- What a call that succeeds has found, and what it does. -/
theorem enter_eq_ok {s s' : State} {a : Activation} {rest : List Activation} {name : String}
    (henter : m.enter s a rest name = .ok s') :
    ∃ callee args caller, m.bytecode.get? name = some callee ∧ m.atLimit (rest.length + 1) = none ∧
      a.popMany callee.params = .ok (args, caller) ∧
      s' = { s with frames := Activation.enter callee args :: caller :: rest }.report
        (.call name (rest.length + 2)) := by
  unfold enter at henter
  -- The three things that a call asks for, in the order in which it asks for them.
  cases hcallee : m.bytecode.get? name with
  | none =>
    rw [hcallee] at henter
    cases henter
  | some callee =>
    simp only [hcallee] at henter
    cases hroom : m.atLimit (rest.length + 1) with
    | some limit =>
      rw [hroom] at henter
      cases henter
    | none =>
      simp only [hroom] at henter
      cases hargs : a.popMany callee.params with
      | error cause =>
        rw [hargs] at henter
        cases henter
      | ok taken =>
        rw [hargs] at henter
        cases henter
        exact ⟨callee, taken.1, taken.2, rfl, rfl, hargs, rfl⟩

/-- Executing an instruction comes to what its action comes to, and for calls and returns to what
the machine makes of them. -/
theorem execute_executes {s : State} {a : Activation} {rest : List Activation} {i : Instruction}
    {place : Location} :
    m.Executes s.heap a rest i
      (stepOfResult place (m.execute s { a with pc := a.pc + 1 } rest i)) := by
  have hends := Action.perform_ends i (s.focus { a with pc := a.pc + 1 })
  unfold Action.Ends at hends
  unfold execute
  cases hresult : Action.perform i (s.focus { a with pc := a.pc + 1 }) with
  | error cause l =>
    rw [hresult] at hends
    obtain ⟨hspends, hblames⟩ := hends
    exact .fails hblames hspends.stack (congrArg (· :: rest) hspends.top) hspends.heap
  | ok flow l =>
    rw [hresult] at hends
    -- What the actions say about the flow decides which activations there are afterwards.
    cases flow with
    | next => exact .effect hends rfl rfl
    | call name =>
      obtain ⟨hop, hname, rfl⟩ := hends
      dsimp only
      rcases m.enter_cases (s.restore (s.focus { a with pc := a.pc + 1 }) rest)
          { a with pc := a.pc + 1 } rest name with
        ⟨callee, s', henter, hcallee, henough, hframes, hheap⟩ | ⟨cause, henter, hcause⟩
      · simp only [State.focus] at henter ⊢
        rw [henter]
        exact .call hop hname hcallee henough hframes hheap
      · simp only [State.focus] at henter ⊢
        rw [henter]
        exact .refused hop hname hcause rfl rfl
    | ret v =>
      obtain ⟨hop, hheap, left, hstack⟩ := hends
      cases hrest : rest with
      | nil => exact .done hop rfl hstack rfl hheap
      | cons caller others => exact .ret hop rfl hstack rfl hheap

/-- A step that has an instruction to execute. -/
theorem step_executes {s : State} {a : Activation} {rest : List Activation} {i : Instruction}
    (hframes : s.frames = a :: rest) (hi : a.blueprint.code[a.pc]? = some i) :
    m.Executes s.heap a rest i (m.step s) := by
  obtain ⟨ready, hready, hheap, _, hstep⟩ := step_eq (m := m) hframes hi
  rcases hstep with hstep | ⟨cause, htrace, hkind, hstep⟩
  · rw [hstep, ← hheap]
    exact execute_executes
  · rw [hstep]
    exact .unwritten htrace hkind hready hheap

/-- A step has nothing to execute and fails with nothing changed, or it executes an instruction. -/
theorem step_cases (m : Machine) (s : State) :
    (s.frames = [] ∧ m.step s = .failed ⟨.noActivation, none⟩ s) ∨
    (∃ a rest, s.frames = a :: rest ∧ a.blueprint.code[a.pc]? = none ∧
      m.step s = .failed ⟨.fellOff a.blueprint.name a.pc, none⟩ s) ∨
    ∃ a rest i, s.frames = a :: rest ∧ a.blueprint.code[a.pc]? = some i ∧
      m.Executes s.heap a rest i (m.step s) := by
  cases hframes : s.frames with
  | nil =>
    refine .inl ⟨rfl, ?_⟩
    unfold step
    rw [hframes]
  | cons a rest =>
    cases hi : a.blueprint.code[a.pc]? with
    | none =>
      refine .inr (.inl ⟨a, rest, rfl, hi, ?_⟩)
      unfold step
      rw [hframes]
      simp only [hi]
    | some i => exact .inr (.inr ⟨a, rest, i, rfl, hi, step_executes hframes hi⟩)

/-- A step that does not end the run has executed an instruction. -/
theorem executes_of_next {s s' : State} (hstep : m.step s = .next s') :
    ∃ a rest i, s.frames = a :: rest ∧ a.blueprint.code[a.pc]? = some i ∧
      m.Executes s.heap a rest i (.next s') := by
  rcases m.step_cases s with ⟨_, h⟩ | ⟨_, _, _, _, h⟩ | ⟨a, rest, i, hframes, hi, hexec⟩
  · cases h.symm.trans hstep
  · cases h.symm.trans hstep
  · exact ⟨a, rest, i, hframes, hi, hstep ▸ hexec⟩

/-- A step that does not end the run had an instruction to execute. -/
theorem instruction?_of_next {s s' : State} (hstep : m.step s = .next s') :
    ∃ i, s.instruction? = some i := by
  obtain ⟨a, rest, i, hframes, hi, _⟩ := executes_of_next hstep
  refine ⟨i, ?_⟩
  unfold State.instruction?
  rw [hframes]
  exact hi

/-- A step that ends the run with a value is a return from the last activation. -/
theorem executes_of_done {s s' : State} {v : Value} (hstep : m.step s = .done v s') :
    ∃ a left, s.frames = [a] ∧ a.stack = v :: left ∧ s'.frames = [] ∧ s'.heap = s.heap := by
  rcases m.step_cases s with ⟨_, h⟩ | ⟨_, _, _, _, h⟩ | ⟨a, rest, i, hframes, _, hexec⟩
  · cases h.symm.trans hstep
  · cases h.symm.trans hstep
  · rw [hstep] at hexec
    cases hexec with
    | done _ hrest hstack hframes' hheap =>
      exact ⟨a, _, hrest ▸ hframes, hstack, hframes', hheap⟩

/-- A step that fails leaves the heap as it was. Of the activations it has at most advanced the
innermost one and taken operands from it. -/
theorem left_of_failed {s s' : State} {fault : Fault} (hstep : m.step s = .failed fault s') :
    s'.heap = s.heap ∧ (s'.frames = s.frames ∨ ∃ a rest i left, s.frames = a :: rest ∧
      a.blueprint.code[a.pc]? = some i ∧ left <:+ a.stack ∧
      s'.frames = { a with pc := a.pc + 1, stack := left } :: rest) := by
  rcases m.step_cases s with ⟨_, h⟩ | ⟨_, _, _, _, h⟩ | ⟨a, rest, i, hframes, hi, hexec⟩
  · cases h.symm.trans hstep
    exact ⟨rfl, .inl rfl⟩
  · cases h.symm.trans hstep
    exact ⟨rfl, .inl rfl⟩
  · rw [hstep] at hexec
    cases hexec with
    | fails _ hleft hframes' hheap =>
      exact ⟨hheap, .inr ⟨a, rest, i, _, hframes, hi, hleft, hframes'⟩⟩
    | refused _ _ _ hframes' hheap =>
      exact ⟨hheap, .inr ⟨a, rest, i, a.stack, hframes, hi, List.suffix_rfl, hframes'⟩⟩
    | unwritten _ _ hframes' hheap =>
      exact ⟨hheap, .inr ⟨a, rest, i, a.stack, hframes, hi, List.suffix_rfl, hframes'⟩⟩

/-! ## Traces -/

/-- Executing the instructions `is`, one after the other, leads from one state to another, and none
of them ends the run. -/
inductive Trace (m : Machine) : State → List Instruction → State → Prop where
  | nil (s : State) : Trace m s [] s
  | cons {s mid s' : State} {i : Instruction} {is : List Instruction}
      (hi : s.instruction? = some i) (hstep : m.step s = .next mid) (hrest : Trace m mid is s') :
      Trace m s (i :: is) s'

/-- What holds at the start and is kept by every step holds all along a trace. -/
theorem Trace.invariant {P : State → Prop} (hkeep : ∀ s s', P s → m.step s = .next s' → P s')
    {s s' : State} {is : List Instruction} (htrace : m.Trace s is s') (hs : P s) : P s' := by
  induction htrace with
  | nil s => exact hs
  | cons _ hstep _ ih => exact ih (hkeep _ _ hs hstep)

/-- An answer is given by the step that follows a trace. -/
theorem trace_of_loop {n : Nat} {s : State} {r : Except Fault Value × State}
    (hloop : m.loop n s = some r) :
    ∃ is last, m.Trace s is last ∧ (m.step last).answer? = some r := by
  -- The trace is collected step by step, from the state that the run is in.
  induction n generalizing s with
  | zero => cases hloop
  | succ n ih =>
    rw [loop] at hloop
    cases hstep : m.step s with
    | next mid =>
      rw [hstep] at hloop
      obtain ⟨is, last, htrace, hanswer⟩ := ih hloop
      obtain ⟨i, hnext⟩ := instruction?_of_next hstep
      exact ⟨i :: is, last, .cons hnext hstep htrace, hanswer⟩
    | done v s' =>
      rw [hstep] at hloop
      exact ⟨[], s, .nil s, by rw [hstep]; exact hloop⟩
    | failed fault s' =>
      rw [hstep] at hloop
      exact ⟨[], s, .nil s, by rw [hstep]; exact hloop⟩

/-- A run is refused for one reason only: there is no function to start in. -/
theorem kind_of_entry_error {cause : Cause} (hentry : m.entry = .error cause) :
    cause.kind = .noEntryPoint := by
  unfold entry at hentry
  split at hentry
  · cases hentry
    rfl
  · split at hentry
    · cases hentry
    · cases hentry
      rfl

/-- The function that a run starts in is one of the program. -/
theorem get?_of_entry {b : Blueprint} (hentry : m.entry = .ok b) :
    m.bytecode.get? m.settings.entryPoint = some b := by
  unfold entry at hentry
  split at hentry
  · cases hentry
  · next hb =>
    split at hentry
    · cases hentry
      exact hb
    · cases hentry

/-- A run has no function to start in, or it is a trace and one more step. -/
theorem run_cases {fuel : Nat} {s s' : State} {result : Except Fault Value}
    (hrun : m.run fuel s = some (result, s')) :
    (∃ cause, m.entry = .error cause ∧ result = .error ⟨cause, none⟩ ∧ s' = s) ∨
    ∃ b is last ended, m.entry = .ok b ∧ m.Trace (m.begin s b) is last ∧
      (m.step last).answer? = some (result, ended) ∧ s' = finish result ended := by
  unfold run at hrun
  cases hentry : m.entry with
  | error cause =>
    rw [hentry] at hrun
    cases hrun
    exact .inl ⟨cause, rfl, rfl, rfl⟩
  | ok b =>
    rw [hentry] at hrun
    obtain ⟨⟨result', ended⟩, hloop, hanswer⟩ := Option.map_eq_some_iff.1 hrun
    cases hanswer
    obtain ⟨is, last, htrace, hlast⟩ := trace_of_loop hloop
    exact .inr ⟨b, is, last, ended, rfl, htrace, hlast, rfl⟩

end Machine

end RecordMachine
