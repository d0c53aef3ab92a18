import RecordMachine.Proofs.Machine.Progress

/-!
# What a profile is told

A machine tells its profile of each instruction before executing it, and at no other moment. If
instructions are not shown, the profile after any number of steps is therefore the profile before
them with the executed states added (`Profile.Adds`, `Machine.advance_adds`); an instruction that
fails is among them. What that means is a matter of the list of these states alone: counts have
grown by how many of them have an opcode or a place, and depths are the greatest that occur in it.
-/

namespace RecordMachine

namespace State

def opcode? (s : State) : Option Opcode := s.instruction?.map Instruction.opcode

def place? (s : State) : Option (String × Nat) :=
  s.frames.head?.map fun a => (a.blueprint.name, a.pc)

def stackDepth (s : State) : Nat :=
  (s.frames.head?.map fun a => a.stack.length).getD 0

variable {s : State} {a : Activation} {rest : List Activation} {i : Instruction}

theorem opcode?_eq (hi : s.instruction? = some i) : s.opcode? = some i.opcode := by
  simp [opcode?, hi]

theorem place?_eq (hframes : s.frames = a :: rest) : s.place? = some (a.blueprint.name, a.pc) := by
  simp [place?, hframes]

theorem stackDepth_eq (hframes : s.frames = a :: rest) : s.stackDepth = a.stack.length := by
  simp [stackDepth, hframes]

end State

/-- One more occurrence of a key counts for that key alone. -/
theorem Tally.count_add {α : Type} [DecidableEq α] (t : Tally α) (key other : α) :
    (t.add key).count other = t.count other + if key = other then 1 else 0 := by
  obtain ⟨entries⟩ := t
  show count ⟨bump key entries⟩ other = count ⟨entries⟩ other + _
  induction entries with
  | nil => by_cases h : key = other <;> simp [bump, count, h]
  | cons entry rest ih =>
    obtain ⟨found, n⟩ := entry
    by_cases hfound : found = key
    · subst hfound
      by_cases h : found = other <;> simp [bump, count, h]
    · by_cases h : found = other
      · -- The entry asked for is this one, which is not the one that grows.
        have hkey : other ≠ key := fun hsame => hfound (h.trans hsame)
        simp [bump, count, h, hkey, hkey.symm]
      · simpa [bump, count, hfound, h] using ih

/-! ## Profiles -/

namespace Profile

/-- The enabled profile `p'` is `p` with the instructions added that are executed in the states
`es`. -/
structure Adds (p : Profile) (es : List State) (p' : Profile) : Prop where
  enabled : p'.enabled = true
  total : p'.total = p.total + es.length
  opcode (op : Opcode) : p'.countOf op = p.countOf op + es.countP fun e => e.opcode? = some op
  place (f : String) (pc : Nat) :
    p'.countAt f pc = p.countAt f pc + es.countP fun e => e.place? = some (f, pc)
  stack : p'.maxStackDepth = (es.map State.stackDepth).foldl max p.maxStackDepth
  calls : p'.maxCallDepth = (es.map State.callDepth).foldl max p.maxCallDepth

variable {p p' p'' : Profile} {es es' : List State}

theorem adds_nil (hp : p.enabled = true) : p.Adds [] p where
  enabled := hp
  total := rfl
  opcode _ := rfl
  place _ _ := rfl
  stack := rfl
  calls := rfl

/-- What is added in two parts is added as a whole. -/
theorem Adds.append (h : p.Adds es p') (h' : p'.Adds es' p'') : p.Adds (es ++ es') p'' where
  enabled := h'.enabled
  total := by rw [h'.total, h.total, List.length_append, Nat.add_assoc]
  opcode op := by rw [h'.opcode, h.opcode, List.countP_append, Nat.add_assoc]
  place f pc := by rw [h'.place, h.place, List.countP_append, Nat.add_assoc]
  stack := by rw [h'.stack, h.stack, List.map_append, List.foldl_append]
  calls := by rw [h'.calls, h.calls, List.map_append, List.foldl_append]

/-- What an enabled profile takes down of one instruction. -/
theorem adds_observe (hp : p.enabled = true) {s : State} {a : Activation} {rest : List Activation}
    {i : Instruction} (hframes : s.frames = a :: rest) (hi : s.instruction? = some i) :
    p.Adds [s] (p.observe i.opcode a.blueprint.name a.pc a.stack.length s.callDepth) := by
  -- The three parts of an observation each look whether the profile is enabled; together they are
  -- this.
  have hobserve : p.observe i.opcode a.blueprint.name a.pc a.stack.length s.callDepth =
      { enabled := true
        total := p.total + 1
        opcodes := p.opcodes.add i.opcode
        places := p.places.add (a.blueprint.name, a.pc)
        maxStackDepth := max p.maxStackDepth a.stack.length
        maxCallDepth := max p.maxCallDepth s.callDepth } := by
    simp [observe, record, noteStackDepth, noteCallDepth, hp]
  rw [hobserve]
  refine ⟨rfl, rfl, ?_, ?_, ?_, rfl⟩
  · intro op
    simp [countOf, Tally.count_add, List.countP_cons, State.opcode?_eq hi]
  · intro f pc
    simp [countAt, Tally.count_add, List.countP_cons, State.place?_eq hframes]
  · simp [State.stackDepth_eq hframes]

end Profile

/-! ## Steps and runs -/

namespace Machine

variable {m : Machine} {s : State} {p : Profile}

/-- Executing an instruction does not touch the profile. -/
theorem profile_execute (m : Machine) (s : State) (top : Activation) (rest : List Activation)
    (i : Instruction) (place : Location) :
    (stepOfResult place (m.execute s top rest i)).state.profile = s.profile := by
  unfold execute
  -- The action only has the part of the state that `State.focus` gives it, and the profile is not
  -- in it.
  rcases Action.perform i (s.focus top) with ⟨flow, l⟩ | ⟨cause, l⟩
  · cases flow with
    | next => rfl
    | call name =>
      dsimp only
      cases henter : m.enter (s.restore l rest) l.top rest name with
      | error cause => rfl
      | ok entered =>
        obtain ⟨_, _, _, _, _, _, rfl⟩ := enter_eq_ok henter
        rfl
    | ret v =>
      cases rest with
      | nil => rfl
      | cons caller others => rfl
  · rfl

/-- A step tells the profile of the instruction that it executes, whatever comes of it. -/
theorem step_adds (htrace : m.settings.trace = false) (hprofile : s.profile = some p)
    (hp : p.enabled = true) {i : Instruction} (hi : s.instruction? = some i) :
    ∃ p', (m.step s).state.profile = some p' ∧ p.Adds [s] p' := by
  obtain ⟨a, rest, hframes, hcode⟩ := State.frames_of_instruction? hi
  have hshow : m.showInstruction { s with frames := { a with pc := a.pc + 1 } :: rest } a i =
      (.ok (), { s with frames := { a with pc := a.pc + 1 } :: rest }) := by
    unfold showInstruction
    rw [htrace]
    rfl
  -- The profile is told before the call or return, so the number of activations is that of `s`.
  have hdepth : ({ a with pc := a.pc + 1 } :: rest).length = s.callDepth := by
    unfold State.callDepth
    rw [hframes]
    rfl
  refine ⟨p.observe i.opcode a.blueprint.name a.pc a.stack.length s.callDepth, ?_,
    Profile.adds_observe hp hframes hi⟩
  rw [step_of_shown hframes hcode hshow, profile_execute, ← hdepth]
  unfold countInstruction
  simp [hprofile]

/-- Up to any moment of a run, the profile has been told of all instructions executed so far. -/
theorem advance_adds (htrace : m.settings.trace = false) (n : Nat) (hprofile : s.profile = some p)
    (hp : p.enabled = true) :
    ∃ p', (m.advance n s).state.profile = some p' ∧ p.Adds (m.executed n s) p' := by
  -- The profile before the next step is the one after this, so the induction is for all of them.
  induction n generalizing s p with
  | zero => exact ⟨p, hprofile, Profile.adds_nil hp⟩
  | succ n ih =>
    rw [advance, executed]
    cases hi : s.instruction? with
    | none =>
      obtain ⟨fault, hstep⟩ := m.step_of_instruction?_none hi
      rw [hstep]
      exact ⟨p, hprofile, Profile.adds_nil hp⟩
    | some i =>
      obtain ⟨p', hprofile', hadds⟩ := step_adds htrace hprofile hp hi
      dsimp only
      cases hstep : m.step s with
      | next mid =>
        rw [hstep] at hprofile'
        obtain ⟨p'', hprofile'', hadds'⟩ := ih hprofile' hadds.enabled
        exact ⟨p'', hprofile'', hadds.append hadds'⟩
      | done v last =>
        rw [hstep] at hprofile'
        exact ⟨p', hprofile', hadds⟩
      | failed fault last =>
        rw [hstep] at hprofile'
        exact ⟨p', hprofile', hadds⟩

end Machine

end RecordMachine
