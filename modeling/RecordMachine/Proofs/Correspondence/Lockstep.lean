import RecordMachine.Proofs.Correspondence.Actions
import RecordMachine.Proofs.Machine.Progress

/-!
# Corresponding runs

Two machines with the same functions, the same function to start in and the same limit on calls take
corresponding steps from corresponding states. Hence they run in lockstep
(`Correspondence.lockstep`): after any number of steps both runs are still going on, in
corresponding states, or both have ended, with corresponding answers, and the states in which they
executed an instruction correspond one by one.

The only other possibility is that ids have run out for one of them, and that the correspondence is
uneven.

What a machine shows of an instruction is left open. It is a condition on the two machines that
showing an instruction succeeds on both sides and keeps the correspondence
(`Correspondence.Machines`).
-/

namespace RecordMachine

/-- The run has ended because every object id has been used. -/
def Step.Exhausted : Step → Prop
  | .failed fault _ => fault.cause = .heapExhausted
  | _ => False

/-- A run that has ended stays ended, whatever number of steps it is given. -/
theorem Step.Exhausted.advance {m : Machine} {s : State} (h : (m.step s).Exhausted) (n : Nat) :
    (m.advance (n + 1) s).Exhausted := by
  rcases m.advance_cases n s with ⟨mid, hstep, _⟩ | ⟨_, heq⟩
  · rw [hstep] at h
    exact h.elim
  · rw [heq]
    exact h

namespace Correspondence

variable (C : Correspondence)

structure States (s s' : State) : Prop where
  frames : List.Forall₂ C.Activations s.frames s'.frames
  heap : C.heap s.heap s'.heap
  console : C.console s.console s'.console
  profile : C.profile s.profile s'.profile

/-- Both runs go on, or both have ended with corresponding answers; faults are at the same place. -/
inductive Steps : Step → Step → Prop where
  | next {s s' : State} (hs : C.States s s') : Steps (.next s) (.next s')
  | done {v v' : Value} {s s' : State} (hv : C.value v v') (hs : C.States s s') :
      Steps (.done v s) (.done v' s')
  | failed {c c' : Cause} {s s' : State} (place : Option Location) (hc : c.Related C.value c')
      (hs : C.States s s') : Steps (.failed ⟨c, place⟩ s) (.failed ⟨c', place⟩ s')

/-- The runs have parted, because ids have run out for one of them. -/
def Parted (r r' : Step) : Prop := C.uneven ∧ (r.Exhausted ∨ r'.Exhausted)

/-- The machines have the same functions, with literals that correspond to themselves, and the same
settings as far as they matter to execution. Showing an instruction succeeds on both. -/
structure Machines (m m' : Machine) : Prop where
  bytecode : m'.bytecode = m.bytecode
  entryPoint : m'.settings.entryPoint = m.settings.entryPoint
  maxCallDepth : m'.settings.maxCallDepth = m.settings.maxCallDepth
  code : ∀ name b, m.bytecode.get? name = some b → ∀ i ∈ b.code.toList, C.Admits i
  shows : ∀ s s' a a' i, C.States s s' → C.Activations a a' →
    ∃ t t', m.showInstruction s a i = (.ok (), t) ∧ m'.showInstruction s' a' i = (.ok (), t') ∧
      C.States t t'

variable {C} {m m' : Machine} {s s' : State}

/-! ## States -/

/-- Putting the activation that was worked on back in front of the others. -/
theorem States.restore (hs : C.States s s') {l l' : Local} {rest rest' : List Activation}
    (hl : C.Locals l l') (hrest : List.Forall₂ C.Activations rest rest') :
    C.States (s.restore l rest) (s'.restore l' rest') :=
  ⟨.cons hl.top hrest, hl.heap, hl.console, hs.profile⟩

/-- The instruction that is counted is the same, and so are the depths. -/
theorem States.count (hs : C.States s s') {a a' : Activation} (ha : C.Activations a a')
    (i : Instruction) :
    C.States (Machine.countInstruction s a i) (Machine.countInstruction s' a' i) := by
  refine ⟨hs.frames, hs.heap, hs.console, ?_⟩
  unfold Machine.countInstruction
  rw [ha.blueprint, ha.pc, ← ha.stack.length_eq, ← hs.frames.length_eq]
  exact C.observe _ _ _ hs.profile

/-- Reporting the end of a run changes none of what is compared. -/
theorem States.finish (hs : C.States s s') (result result' : Except Fault Value) :
    C.States (Machine.finish result s) (Machine.finish result' s') := by
  refine ⟨?_, ?_, ?_, ?_⟩
  · rw [Machine.frames_finish, Machine.frames_finish]
    exact hs.frames
  · rw [Machine.heap_finish, Machine.heap_finish]
    exact hs.heap
  · rw [Machine.console_finish, Machine.console_finish]
    exact hs.console
  · rw [Machine.profile_finish, Machine.profile_finish]
    exact hs.profile

/-- Corresponding states are about to execute the same instruction. -/
theorem States.instruction?_eq (hs : C.States s s') : s'.instruction? = s.instruction? := by
  have hframes := hs.frames
  unfold State.instruction?
  generalize s.frames = frames at hframes ⊢
  generalize s'.frames = frames' at hframes ⊢
  cases hframes with
  | nil => rfl
  | cons ha _ =>
    dsimp only
    rw [ha.blueprint, ha.pc]

/-- Both machines start in the same function, or refuse to for the same cause. -/
theorem Machines.entry_eq (hm : C.Machines m m') : m'.entry = m.entry := by
  unfold Machine.entry
  rw [hm.bytecode, hm.entryPoint]

/-- A callee begins with corresponding arguments and no operands. -/
theorem Machines.enter (hm : C.Machines m m') {name : String} {b : Blueprint}
    (hb : m.bytecode.get? name = some b) {args args' : List Value}
    (hargs : List.Forall₂ C.value args args') :
    C.Activations (Activation.enter b args) (Activation.enter b args') :=
  ⟨rfl, rfl, hargs, .nil, hm.code name b hb⟩

/-- Runs begin in corresponding states if what they find does: earlier activations do not matter. -/
theorem Machines.begin (hm : C.Machines m m') (s s' : State) {b : Blueprint}
    (hentry : m.entry = .ok b)
    (hheap : C.heap s.heap s'.heap) (hconsole : C.console s.console s'.console)
    (hprofile : C.profile s.profile s'.profile) : C.States (m.begin s b) (m'.begin s' b) := by
  have hentered := hm.enter (Machine.get?_of_entry hentry) .nil
  exact ⟨.cons hentered .nil, hheap, hconsole, hprofile⟩

/-! ## One step -/

section Step

variable {a a' : Activation} {rest rest' : List Activation} {i : Instruction}

/-- A call is carried out on both sides or on neither: the depth and the callee are the same, and
there are equally many operands. -/
theorem enter_outcomes (hm : C.Machines m m') (hs : C.States s s') (ha : C.Activations a a')
    (hrest : List.Forall₂ C.Activations rest rest') (name : String) :
    Outcomes (Cause.Related C.value) C.States (m.enter s a rest name)
      (m'.enter s' a' rest' name) := by
  -- The limit is met at the same depth, since both sides have as many activations.
  have hlimit : m'.atLimit (rest'.length + 1) = m.atLimit (rest.length + 1) := by
    unfold Machine.atLimit
    rw [hm.maxCallDepth, hrest.length_eq]
  unfold Machine.enter
  rw [hm.bytecode, hlimit]
  cases hcallee : m.bytecode.get? name with
  | none => exact .error (.same rfl)
  | some callee =>
    dsimp only
    cases m.atLimit (rest.length + 1) with
    | some limit => exact .error (.same rfl)
    | none =>
      have hargs := ha.popMany callee.params
      dsimp only
      generalize a.popMany callee.params = taken at hargs ⊢
      generalize a'.popMany callee.params = taken' at hargs ⊢
      cases hargs with
      | error hc => exact .error hc
      | ok htaken =>
        have hentered := hm.enter hcallee htaken.1
        exact .ok ⟨.cons hentered (.cons htaken.2 hrest), hs.heap, hs.console, hs.profile⟩

/-- Executing an instruction from corresponding states. `perform_pairs` answers for what it does to
the top activation; the call and the return reach further. -/
theorem execute_steps (hm : C.Machines m m') (hs : C.States s s') (ha : C.Activations a a')
    (hrest : List.Forall₂ C.Activations rest rest') (hi : C.Admits i) (place : Location) :
    C.Parted (Machine.stepOfResult place (m.execute s a rest i))
        (Machine.stepOfResult place (m'.execute s' a' rest' i)) ∨
      C.Steps (Machine.stepOfResult place (m.execute s a rest i))
        (Machine.stepOfResult place (m'.execute s' a' rest' i)) := by
  have hresults := perform_pairs hi (s.focus a) (s'.focus a') ⟨ha, hs.heap, hs.console⟩
  unfold Machine.execute
  generalize Action.perform i (s.focus a) = result at hresults ⊢
  generalize Action.perform i (s'.focus a') = result' at hresults ⊢
  cases hresults with
  | error hc hl => exact .inr (.failed place hc (hs.restore hl hrest))
  | parted huneven hexhausted =>
    refine .inl ⟨huneven, ?_⟩
    rcases hexhausted with ⟨l, rfl⟩ | ⟨l, rfl⟩
    · exact .inl rfl
    · exact .inr rfl
  | ok hflow hl =>
    refine .inr ?_
    cases hflow with
    | next => exact .next (hs.restore hl hrest)
    | call name =>
      have hrestored := hs.restore hl hrest
      have henter := enter_outcomes hm hrestored hl.top hrest name
      dsimp only
      generalize m.enter _ _ rest name = entered at henter ⊢
      generalize m'.enter _ _ rest' name = entered' at henter ⊢
      cases henter with
      | ok hentered => exact .next hentered
      | error hc => exact .failed place hc hrestored
    | ret hv =>
      -- A return from the outermost activation ends the run.
      cases hrest with
      | nil => exact .done hv ⟨.nil, hl.heap, hl.console, hs.profile⟩
      | cons hcaller hothers =>
        exact .next ⟨.cons (hcaller.push hv) hothers, hl.heap, hl.console, hs.profile⟩

end Step

/-- Corresponding states lead to corresponding states, or to corresponding answers. -/
theorem step_steps (hm : C.Machines m m') (hs : C.States s s') :
    C.Parted (m.step s) (m'.step s') ∨ C.Steps (m.step s) (m'.step s') := by
  have hframes := hs.frames
  cases hleft : s.frames with
  | nil =>
    rw [hleft] at hframes
    have hright := List.forall₂_nil_left_iff.1 hframes
    unfold Machine.step
    rw [hleft, hright]
    exact .inr (.failed none (.same rfl) hs)
  | cons a rest =>
    rw [hleft] at hframes
    obtain ⟨a', rest', ha, hrest, hright⟩ := List.forall₂_cons_left_iff.1 hframes
    -- Both sides fetch the same instruction.
    have hfetch : a'.blueprint.code[a'.pc]? = a.blueprint.code[a.pc]? := by
      rw [ha.blueprint, ha.pc]
    cases hi : a.blueprint.code[a.pc]? with
    | none =>
      unfold Machine.step
      rw [hleft, hright]
      simp only [hi, hfetch]
      rw [ha.blueprint, ha.pc]
      exact .inr (.failed none (.same rfl) hs)
    | some i =>
      have hadmits : C.Admits i := ha.code i (Array.mem_toList_iff.2 (Array.mem_of_getElem? hi))
      -- The index is advanced before the instruction is shown.
      have hadvanced : C.Activations { a with pc := a.pc + 1 } { a' with pc := a'.pc + 1 } := by
        rw [ha.pc]
        exact ha.goTo (a.pc + 1)
      have hready : C.States { s with frames := { a with pc := a.pc + 1 } :: rest }
          { s' with frames := { a' with pc := a'.pc + 1 } :: rest' } :=
        ⟨.cons hadvanced hrest, hs.heap, hs.console, hs.profile⟩
      obtain ⟨t, t', hshow, hshow', ht⟩ := hm.shows _ _ a a' i hready ha
      have hplace : Location.mk a'.blueprint.name a'.pc i.text
          = ⟨a.blueprint.name, a.pc, i.text⟩ := by
        rw [ha.blueprint, ha.pc]
      rw [Machine.step_of_shown hleft hi hshow,
        Machine.step_of_shown hright (hfetch.trans hi) hshow',
        hplace]
      exact execute_steps hm (ht.count ha i) hadvanced hrest hadmits _

/-! ## Runs -/

/-- Corresponding machines run in lockstep from corresponding states, unless ids run out. Induction
on the number of steps. -/
theorem lockstep (hm : C.Machines m m') (hs : C.States s s') (n : Nat) :
    C.Parted (m.advance n s) (m'.advance n s') ∨
      C.Steps (m.advance n s) (m'.advance n s') ∧
        List.Forall₂ C.States (m.executed n s) (m'.executed n s') := by
  induction n generalizing s s' with
  | zero => exact .inr ⟨.next hs, .nil⟩
  | succ n ih =>
    rcases step_steps hm hs with ⟨huneven, hexhausted⟩ | hsteps
    · exact .inl ⟨huneven, hexhausted.imp (fun h => h.advance n) fun h => h.advance n⟩
    · -- The state itself counts as executed if it has an instruction, which both have or neither.
      unfold Machine.advance Machine.executed
      rw [hs.instruction?_eq]
      generalize m.step s = r at hsteps ⊢
      generalize m'.step s' = r' at hsteps ⊢
      cases hsteps with
      | @next mid mid' hmid =>
        refine (ih hmid).imp_right fun hrest => ⟨hrest.1, ?_⟩
        cases s.instruction? with
        | none => exact .nil
        | some i => exact .cons hs hrest.2
      | done hv hlast =>
        refine .inr ⟨.done hv hlast, ?_⟩
        cases s.instruction? with
        | none => exact .nil
        | some i => exact .cons hs .nil
      | failed place hc hlast =>
        refine .inr ⟨.failed place hc hlast, ?_⟩
        cases s.instruction? with
        | none => exact .nil
        | some i => exact .cons hs .nil

end Correspondence

end RecordMachine
