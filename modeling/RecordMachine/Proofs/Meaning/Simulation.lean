import RecordMachine.Proofs.Lowering.Placement
import RecordMachine.Proofs.Machine.Runs
import RecordMachine.Proofs.Meaning.Interpreter

/-!
# A machine doing what an evaluation says

`Simulates m fuel s outcome post` relates a state of a machine to the outcome of an evaluation, in
all the ways in which an evaluation can go: with a result, the machine gets to a state that `post`
relates to it; with a fault, the machine fails for the same cause and in the same world; without an
answer, the machine makes `fuel` steps and has not ended. The last clause is what carries
non-termination over: each unit of fuel that an evaluation uses up is at least one step of the
machine (`Simulates.after_step`).

Evaluations are put together by `>>=`, and so are simulations (`Simulates.bind`). One instruction
simulates one primitive evaluation (`Simulates.instruction` and the lemmas that follow it), so the
code of an expression or a statement is dealt with instruction by instruction.
-/

namespace RecordMachine

/-! ## Where a machine stands -/

def State.world (s : State) : World := ⟨s.heap, s.console⟩

/-- The state has these activations and this world. -/
def State.At (s : State) (frames : List Activation) (w : World) : Prop :=
  s.frames = frames ∧ s.world = w

/-- The activation `count` instructions further, with another operand stack. -/
def Activation.advance (a : Activation) (count : Nat) (stack : List Value) : Activation :=
  { a with pc := a.pc + count, stack }

@[simp] theorem Activation.advance_advance (a : Activation) (k n : Nat) (st st' : List Value) :
    (a.advance k st).advance n st' = a.advance (k + n) st' := by
  simp [Activation.advance, Nat.add_assoc]

/-- What comes first and has no result comes instead of what follows. -/
theorem Eval.bind_apply {α β : Type} (x : Eval α) (f : α → Eval β) (w : World) :
    (x >>= f) w = match x w with
      | none => none
      | some (.ok a, w') => f a w'
      | some (.error mishap, w') => some (.error mishap, w') := rfl

/-! ## Simulation -/

/-- The machine at `s` does what the outcome of an evaluation says. -/
def Simulates {α : Type} (m : Machine) (fuel : Nat) (s : State)
    (outcome : Option (Except Mishap α × World)) (post : α → World → State → Prop) : Prop :=
  match outcome with
  | none => m.loop fuel s = none
  | some (.ok a, w) => ∃ n s', m.Steps n s s' ∧ post a w s'
  | some (.error (.fault cause), w) =>
    ∃ n fault s', m.loop n s = some (.error fault, s') ∧ fault.cause = cause ∧ s'.world = w
  | some (.error .illFormed, _) => False

namespace Simulates

variable {α β : Type} {m : Machine} {fuel : Nat} {s s' : State}
  {outcome : Option (Except Mishap α × World)} {post post' : α → World → State → Prop}

/-- A result is reached where the machine stands already. -/
theorem pure {a : α} {w : World} (h : post a w s) :
    Simulates m fuel s ((Pure.pure a : Eval α) w) post :=
  ⟨0, s, .refl s, h⟩

/-- Steps that lead to a simulation are part of it. -/
theorem after_steps {n : Nat} (hsteps : m.Steps n s s') (h : Simulates m fuel s' outcome post) :
    Simulates m fuel s outcome post := by
  rcases outcome with _ | ⟨(cause | _) | a, w⟩
  · -- More steps than were asked for.
    have hmore : m.loop (n + fuel) s = none := by
      rw [Machine.loop_of_steps hsteps]
      exact h
    exact Machine.loop_eq_none_of_le (by omega) hmore
  · obtain ⟨k, fault, s'', hloop, hfault⟩ := h
    refine ⟨n + k, fault, s'', ?_, hfault⟩
    rw [Machine.loop_of_steps hsteps]
    exact hloop
  · exact h
  · obtain ⟨k, s'', hmore, ha⟩ := h
    exact ⟨n + k, s'', hsteps.trans hmore, ha⟩

/-- A step that leads to a simulation is worth one unit of fuel. -/
theorem after_step (hstep : m.step s = .next s') (h : Simulates m fuel s' outcome post) :
    Simulates m (fuel + 1) s outcome post := by
  have hfew : Simulates m fuel s outcome post := after_steps (.single hstep) h
  rcases outcome with _ | ⟨(cause | _) | a, w⟩
  · -- The only case in which fuel is counted.
    show m.loop (fuel + 1) s = none
    rw [Machine.loop, hstep]
    exact h
  · exact hfew
  · exact hfew
  · exact hfew

/-- The machine may go on from where a result has led it. -/
theorem extend (h : Simulates m fuel s outcome post)
    (hpost : ∀ a w s', post a w s' → Simulates m fuel s' ((Pure.pure a : Eval α) w) post') :
    Simulates m fuel s outcome post' := by
  rcases outcome with _ | ⟨(cause | _) | a, w⟩
  · exact h
  · exact h
  · exact h
  · obtain ⟨n, s', hsteps, ha⟩ := h
    exact after_steps hsteps (hpost a w s' ha)

/-- What is known of the state that a result leads to may be weakened. -/
theorem imp (h : Simulates m fuel s outcome post)
    (hpost : ∀ a w s', post a w s' → post' a w s') : Simulates m fuel s outcome post' :=
  h.extend fun a w s' ha => .pure (hpost a w s' ha)

/-- Where a result has led the machine, it is known to be the result. -/
theorem with_result (h : Simulates m fuel s outcome post) :
    Simulates m fuel s outcome fun a w s' => outcome = some (.ok a, w) ∧ post a w s' := by
  rcases outcome with _ | ⟨(cause | _) | a, w⟩
  · exact h
  · exact h
  · exact h
  · obtain ⟨n, s', hsteps, ha⟩ := h
    exact ⟨n, s', hsteps, rfl, ha⟩

/-- With less fuel fewer steps are asked for. -/
theorem of_le {k : Nat} (hle : k ≤ fuel) (h : Simulates m fuel s outcome post) :
    Simulates m k s outcome post := by
  rcases outcome with _ | ⟨(cause | _) | a, w⟩
  · exact Machine.loop_eq_none_of_le hle h
  · exact h
  · exact h
  · exact h

/-- Where an evaluation goes on with a second one, so does the machine. -/
theorem bind {x : Eval α} {f : α → Eval β} {w : World} {last : β → World → State → Prop}
    (hx : Simulates m fuel s (x w) post)
    (hf : ∀ a w' s', post a w' s' → Simulates m fuel s' (f a w') last) :
    Simulates m fuel s ((x >>= f) w) last := by
  rw [Eval.bind_apply]
  generalize x w = outcome at hx
  rcases outcome with _ | ⟨(cause | _) | a, w'⟩
  · exact hx
  · exact hx
  · exact hx
  · obtain ⟨n, s', hsteps, ha⟩ := hx
    exact after_steps hsteps (hf a w' s' ha)

/-- Where the first evaluation is a single step of the machine, the second one may use up one unit
of fuel less. -/
theorem bind_step {x : Eval α} {f : α → Eval β} {w : World} {last : β → World → State → Prop}
    (hx : Simulates m (fuel + 1) s (x w) fun a w' s' => m.step s = .next s' ∧ post a w' s')
    (hf : ∀ a w' s', post a w' s' → Simulates m fuel s' (f a w') last) :
    Simulates m (fuel + 1) s ((x >>= f) w) last := by
  rw [Eval.bind_apply]
  generalize x w = outcome at hx
  rcases outcome with _ | ⟨(cause | _) | a, w'⟩
  · exact hx
  · exact hx
  · exact hx
  · obtain ⟨_, s', _, hstep, ha⟩ := hx
    exact after_step hstep (hf a w' s' ha)

end Simulates

end RecordMachine
