import RecordMachine.Proofs.Meaning.Simulation

/-!
# Instructions as primitive evaluations

One lemma for each instruction that lowered code uses. An instruction that cannot fail where lowered
code has it is a step (`Machine.Goes`); any other instruction simulates a primitive evaluation,
fault for fault. The machine does not trace: `m.settings.trace = false` throughout.
-/

namespace RecordMachine

/-- The next step leads to a state with these activations and this world. -/
def Machine.Goes (m : Machine) (s : State) (frames : List Activation) (w : World) : Prop :=
  ∃ s', m.step s = .next s' ∧ s'.At frames w

/-- The outcome of an instruction is that of an evaluation, where `after` is the activation that a
result leaves. -/
def Mirrors {α : Type} (result : EStateM.Result Cause Local Flow)
    (outcome : Option (Except Mishap α × World)) (after : α → Activation) : Prop :=
  match result with
  | .ok .next l => ∃ v, outcome = some (.ok v, ⟨l.heap, l.console⟩) ∧ l.top = after v
  | .ok _ _ => False
  | .error cause l => outcome = some (.error (.fault cause), ⟨l.heap, l.console⟩)

section Primitives

variable {m : Machine} {s : State} {a : Activation} {rest : List Activation} {w : World}
  {i : Instruction}

/-- What an activation can reach when its next instruction is performed. -/
def World.focus (w : World) (a : Activation) : Local := ⟨a.advance 1 a.stack, w.heap, w.console⟩

/-- A step without a trace executes the next instruction in the world as it is. -/
theorem Machine.step_eq_execute (htrace : m.settings.trace = false) (hs : s.At (a :: rest) w)
    (hi : a.blueprint.code[a.pc]? = some i) :
    ∃ ready : State, ready.world = w ∧
      m.step s = Machine.stepOfResult ⟨a.blueprint.name, a.pc, i.text⟩
        (m.execute ready (a.advance 1 a.stack) rest i) := by
  obtain ⟨ready, _, hheap, hconsole, hstep⟩ := Machine.step_eq (m := m) hs.1 hi
  refine ⟨ready, ?_, ?_⟩
  · rw [← hs.2]
    unfold State.world
    rw [hheap, hconsole htrace]
  · rcases hstep with hstep | ⟨cause, htrue, _⟩
    · exact hstep
    · rw [htrace] at htrue
      cases htrue

/-- The machine does in one step what an evaluation says, if its next instruction does. -/
theorem Simulates.instruction_step {α : Type} {fuel : Nat}
    {outcome : Option (Except Mishap α × World)} {after : α → Activation}
    (htrace : m.settings.trace = false) (hs : s.At (a :: rest) w)
    (hi : a.blueprint.code[a.pc]? = some i)
    (hmirrors : Mirrors (Action.perform i (w.focus a)) outcome after) :
    Simulates m fuel s outcome fun v w' s' => m.step s = .next s' ∧ s'.At (after v :: rest) w' := by
  obtain ⟨ready, hready, hstep⟩ := Machine.step_eq_execute htrace hs hi
  -- What the instruction can reach is the world of the evaluation.
  have hfocus : ready.focus (a.advance 1 a.stack) = w.focus a := by
    rw [← hready]
    rfl
  unfold Machine.execute at hstep
  rw [hfocus] at hstep
  rcases hresult : Action.perform i (w.focus a) with ⟨flow, l⟩ | ⟨cause, l⟩
  · rw [hresult] at hmirrors hstep
    cases flow with
    | next =>
      obtain ⟨v, rfl, hafter⟩ := hmirrors
      refine ⟨1, _, .single hstep, hstep, ?_, rfl⟩
      show l.top :: rest = after v :: rest
      rw [hafter]
    | call name => exact hmirrors.elim
    | ret v => exact hmirrors.elim
  · rw [hresult] at hmirrors hstep
    obtain rfl := hmirrors
    refine ⟨1, ⟨cause, some ⟨a.blueprint.name, a.pc, i.text⟩⟩, ready.restore l rest, ?_, rfl, rfl⟩
    rw [Machine.loop, hstep]
    rfl

/-- The machine does what an evaluation says, if its next instruction does. -/
theorem Simulates.instruction {α : Type} {fuel : Nat} {outcome : Option (Except Mishap α × World)}
    {after : α → Activation} (htrace : m.settings.trace = false) (hs : s.At (a :: rest) w)
    (hi : a.blueprint.code[a.pc]? = some i)
    (hmirrors : Mirrors (Action.perform i (w.focus a)) outcome after) :
    Simulates m fuel s outcome fun v w' s' => s'.At (after v :: rest) w' :=
  (Simulates.instruction_step htrace hs hi hmirrors).imp fun _ _ _ h => h.2

/-- An instruction that does not fail is a step. -/
theorem Machine.Goes.instruction {l : Local} (htrace : m.settings.trace = false)
    (hs : s.At (a :: rest) w) (hi : a.blueprint.code[a.pc]? = some i)
    (hperform : Action.perform i (w.focus a) = .ok .next l) :
    m.Goes s (l.top :: rest) ⟨l.heap, l.console⟩ := by
  obtain ⟨ready, hready, hstep⟩ := Machine.step_eq_execute htrace hs hi
  have hfocus : ready.focus (a.advance 1 a.stack) = w.focus a := by
    rw [← hready]
    rfl
  unfold Machine.execute at hstep
  rw [hfocus, hperform] at hstep
  exact ⟨_, hstep, rfl, rfl⟩

/-- Where a machine goes, it goes on simulating. -/
theorem Machine.Goes.simulates {α : Type} {fuel : Nat} {outcome : Option (Except Mishap α × World)}
    {post : α → World → State → Prop} {frames : List Activation} (h : m.Goes s frames w)
    (hnext : ∀ s', s'.At frames w → Simulates m fuel s' outcome post) :
    Simulates m fuel s outcome post := by
  obtain ⟨s', hstep, hs'⟩ := h
  exact .after_steps (.single hstep) (hnext s' hs')

/-- A step that the machine goes pays for one unit of fuel. -/
theorem Machine.Goes.simulates_succ {α : Type} {fuel : Nat}
    {outcome : Option (Except Mishap α × World)} {post : α → World → State → Prop}
    {frames : List Activation} (h : m.Goes s frames w)
    (hnext : ∀ s', s'.At frames w → Simulates m fuel s' outcome post) :
    Simulates m (fuel + 1) s outcome post := by
  obtain ⟨s', hstep, hs'⟩ := h
  exact .after_step hstep (hnext s' hs')

/-! ## Instructions that do not fail -/

variable (htrace : m.settings.trace = false) (hs : s.At (a :: rest) w)

include htrace hs

theorem goes_push {v : Value} (hi : a.blueprint.code[a.pc]? = some (.push v)) :
    m.Goes s (a.advance 1 (v :: a.stack) :: rest) w :=
  .instruction htrace hs hi rfl

theorem goes_nop (hi : a.blueprint.code[a.pc]? = some (.plain .nop)) :
    m.Goes s (a.advance 1 a.stack :: rest) w :=
  .instruction htrace hs hi rfl

theorem goes_jump {target : Nat} (hi : a.blueprint.code[a.pc]? = some (.jump target)) :
    m.Goes s ({ a with pc := target } :: rest) w :=
  .instruction htrace hs hi rfl

theorem goes_load {slot : Nat} {v : Value} (hv : a.slots[slot]? = some v)
    (hi : a.blueprint.code[a.pc]? = some (.load slot)) :
    m.Goes s (a.advance 1 (v :: a.stack) :: rest) w := by
  have hload : (w.focus a).top.load slot = .ok v := by
    unfold Activation.load
    rw [show (w.focus a).top.slots = a.slots from rfl, hv]
  refine .instruction htrace hs hi (l := ⟨a.advance 1 (v :: a.stack), w.heap, w.console⟩) ?_
  simp only [Action.perform, Instruction.load, Action.need, Operand.slot?, bind, EStateM.bind,
    Action.load, hload]
  rfl

/- From here on the operands that an instruction takes are spelled out in the activation, so that
performing it computes. -/

theorem goes_store {slot : Nat} {v : Value} {st : List Value} (hst : a.stack = v :: st)
    (hi : a.blueprint.code[a.pc]? = some (.store slot)) :
    m.Goes s ((a.advance 1 st).store slot v :: rest) w := by
  obtain ⟨blueprint, slots, stack, pc⟩ := a
  obtain rfl : stack = v :: st := hst
  exact .instruction htrace hs hi rfl

theorem goes_pop {comment : String} {v : Value} {st : List Value} (hst : a.stack = v :: st)
    (hi : a.blueprint.code[a.pc]? = some ((Instruction.plain .pop).withComment comment)) :
    m.Goes s (a.advance 1 st :: rest) w := by
  obtain ⟨blueprint, slots, stack, pc⟩ := a
  obtain rfl : stack = v :: st := hst
  exact .instruction htrace hs hi rfl

theorem goes_dup {v : Value} {st : List Value} (hst : a.stack = v :: st)
    (hi : a.blueprint.code[a.pc]? = some (.plain .dup)) :
    m.Goes s (a.advance 1 (v :: v :: st) :: rest) w := by
  obtain ⟨blueprint, slots, stack, pc⟩ := a
  obtain rfl : stack = v :: st := hst
  exact .instruction htrace hs hi rfl

theorem goes_swap {u v : Value} {st : List Value} (hst : a.stack = v :: u :: st)
    (hi : a.blueprint.code[a.pc]? = some (.plain .swap)) :
    m.Goes s (a.advance 1 (u :: v :: st) :: rest) w := by
  obtain ⟨blueprint, slots, stack, pc⟩ := a
  obtain rfl : stack = v :: u :: st := hst
  exact .instruction htrace hs hi rfl

/-! ## Instructions that may fail -/

variable {fuel : Nat}

theorem simulates_unary {f : Value → Except Cause Value} {v : Value} {st : List Value}
    (hst : a.stack = v :: st) (hi : a.blueprint.code[a.pc]? = some i)
    (hperform : Action.perform i = (do Action.unary f; return .next)) :
    Simulates m fuel s (Eval.lift (f v) w) fun v' w' s' =>
      s'.At (a.advance 1 (v' :: st) :: rest) w' := by
  obtain ⟨blueprint, slots, stack, pc⟩ := a
  obtain rfl : stack = v :: st := hst
  refine .instruction htrace hs hi ?_
  rw [hperform]
  simp only [Action.unary, bind, EStateM.bind, Action.pop, Activation.pop, World.focus,
    Activation.advance]
  cases f v with
  | ok v' => exact ⟨v', rfl, rfl⟩
  | error cause => rfl

theorem simulates_binary {f : Value → Value → Except Cause Value} {u v : Value} {st : List Value}
    (hst : a.stack = v :: u :: st) (hi : a.blueprint.code[a.pc]? = some i)
    (hperform : Action.perform i = (do Action.binary f; return .next)) :
    Simulates m fuel s (Eval.lift (f u v) w) fun v' w' s' =>
      s'.At (a.advance 1 (v' :: st) :: rest) w' := by
  obtain ⟨blueprint, slots, stack, pc⟩ := a
  obtain rfl : stack = v :: u :: st := hst
  refine .instruction htrace hs hi ?_
  rw [hperform]
  simp only [Action.binary, bind, EStateM.bind, Action.pop, Activation.pop, World.focus,
    Activation.advance]
  cases f u v with
  | ok v' => exact ⟨v', rfl, rfl⟩
  | error cause => rfl

/-- A conditional jump goes on behind itself or at its target. -/
theorem simulates_jumpIfFalse {target : Nat} {v : Value} {st : List Value}
    (hst : a.stack = v :: st) (hi : a.blueprint.code[a.pc]? = some (.jumpIfFalse target)) :
    Simulates m fuel s (Eval.condition v w) fun b w' s' =>
      s'.At ((if b then a.advance 1 st else { a with pc := target, stack := st }) :: rest) w' := by
  obtain ⟨blueprint, slots, stack, pc⟩ := a
  obtain rfl : stack = v :: st := hst
  refine .instruction htrace hs hi ?_
  rcases v with _ | _ | (_ | _) | _ | _ | _ | _
  case bool.false => exact ⟨false, rfl, rfl⟩
  case bool.true => exact ⟨true, rfl, rfl⟩
  all_goals rfl

theorem simulates_write {v : Value} {st : List Value} (hst : a.stack = v :: st)
    (hi : a.blueprint.code[a.pc]? = some (.plain .write)) :
    Simulates m fuel s (Eval.print v.text w) fun _ w' s' => s'.At (a.advance 1 st :: rest) w' := by
  obtain ⟨blueprint, slots, stack, pc⟩ := a
  obtain rfl : stack = v :: st := hst
  refine .instruction htrace hs hi ?_
  simp only [Action.perform, Instruction.plain, bind, EStateM.bind, Action.pop, Activation.pop,
    World.focus, Activation.advance, Action.print, Eval.print, Eval.onConsole]
  rcases w.console.print v.text with ⟨_ | _, console⟩
  · rfl
  · exact ⟨(), rfl, rfl⟩

theorem simulates_read (hi : a.blueprint.code[a.pc]? = some (.plain .read)) :
    Simulates m fuel s (Eval.readLine w) fun line w' s' =>
      s'.At (a.advance 1 (.string line :: a.stack) :: rest) w' := by
  refine .instruction htrace hs hi ?_
  simp only [Action.perform, Instruction.plain, bind, EStateM.bind, Action.readLine, World.focus,
    Eval.readLine, Eval.onConsole]
  rcases w.console.readLine with ⟨_ | line, console⟩
  · rfl
  · exact ⟨line, rfl, rfl⟩

theorem simulates_alloc {names : List String} (hi : a.blueprint.code[a.pc]? = some (.alloc names)) :
    Simulates m fuel s (Eval.alloc names w) fun id w' s' =>
      m.step s = .next s' ∧ s'.At (a.advance 1 (.object id :: a.stack) :: rest) w' := by
  refine .instruction_step htrace hs hi ?_
  simp only [Action.perform, Instruction.alloc, bind, EStateM.bind, Action.need, Operand.fields?,
    Action.alloc, World.focus, Eval.alloc, Eval.onHeap]
  rcases w.heap.alloc names with _ | ⟨id, heap⟩
  · rfl
  · exact ⟨id, rfl, rfl⟩

/-- Freeing takes the operand on top, which has to be an object. -/
theorem simulates_free {target : Value} {st : List Value} (hst : a.stack = target :: st)
    (hi : a.blueprint.code[a.pc]? = some (.plain .free)) :
    Simulates m fuel s (Eval.free target w) fun _ w' s' =>
      s'.At (a.advance 1 st :: rest) w' := by
  obtain ⟨blueprint, slots, stack, pc⟩ := a
  obtain rfl : stack = target :: st := hst
  refine .instruction htrace hs hi ?_
  rw [Eval.free, Eval.bind_apply]
  simp only [Action.perform, Instruction.plain, bind, EStateM.bind, Action.pop, Activation.pop,
    World.focus, Activation.advance]
  cases target.target .free with
  | error cause => rfl
  | ok id =>
    simp only [Action.lift, Action.free, Eval.lift, Pure.pure, Eval.onHeap]
    cases w.heap.free id with
    | error cause => rfl
    | ok heap => exact ⟨(), rfl, rfl⟩

theorem simulates_getField {field : String} {target : Value} {st : List Value}
    (hst : a.stack = target :: st) (hi : a.blueprint.code[a.pc]? = some (.getField field)) :
    Simulates m fuel s (Eval.getField target field w) fun v w' s' =>
      s'.At (a.advance 1 (v :: st) :: rest) w' := by
  obtain ⟨blueprint, slots, stack, pc⟩ := a
  obtain rfl : stack = target :: st := hst
  refine .instruction htrace hs hi ?_
  rw [Eval.getField, Eval.bind_apply]
  simp only [Action.perform, Instruction.getField, Action.need, Operand.name?, bind, EStateM.bind,
    Action.pop, Activation.pop, World.focus, Activation.advance]
  cases target.target .getField with
  | error cause => rfl
  | ok id =>
    simp only [Action.lift, Action.getField, Eval.lift, Pure.pure, Eval.onHeap]
    cases w.heap.getField id field with
    | error cause => rfl
    | ok v => exact ⟨v, rfl, rfl⟩

/-- Setting a field takes the value and the object below it. -/
theorem simulates_setField {field : String} {target v : Value} {st : List Value}
    (hst : a.stack = v :: target :: st) (hi : a.blueprint.code[a.pc]? = some (.setField field)) :
    Simulates m fuel s (Eval.setField target field v w) fun _ w' s' =>
      s'.At (a.advance 1 st :: rest) w' := by
  obtain ⟨blueprint, slots, stack, pc⟩ := a
  obtain rfl : stack = v :: target :: st := hst
  refine .instruction htrace hs hi ?_
  rw [Eval.setField, Eval.bind_apply]
  simp only [Action.perform, Instruction.setField, Action.need, Operand.name?, bind, EStateM.bind,
    Action.pop, Activation.pop, World.focus, Activation.advance]
  cases target.target .setField with
  | error cause => rfl
  | ok id =>
    simp only [Action.lift, Action.setField, Eval.lift, Pure.pure, Eval.onHeap]
    cases w.heap.setField id field v with
    | error cause => rfl
    | ok heap => exact ⟨(), rfl, rfl⟩

/-! ## Calls and returns -/

/-- Returning hands the value on top to the caller. -/
theorem goes_ret {v : Value} {st : List Value} {caller : Activation} {others : List Activation}
    (hst : a.stack = v :: st) (hrest : rest = caller :: others)
    (hi : a.blueprint.code[a.pc]? = some (.plain .ret)) :
    m.Goes s (caller.push v :: others) w := by
  obtain ⟨blueprint, slots, stack, pc⟩ := a
  obtain rfl : stack = v :: st := hst
  subst hrest
  obtain ⟨ready, hready, hstep⟩ := Machine.step_eq_execute htrace hs hi
  subst hready
  exact ⟨_, hstep, rfl, rfl⟩

/-- Returning from the last activation ends the run. -/
theorem loop_ret {v : Value} {st : List Value} (hst : a.stack = v :: st) (hrest : rest = [])
    (hi : a.blueprint.code[a.pc]? = some (.plain .ret)) :
    ∃ s', m.loop 1 s = some (.ok v, s') ∧ s'.world = w := by
  obtain ⟨blueprint, slots, stack, pc⟩ := a
  obtain rfl : stack = v :: st := hst
  subst hrest
  obtain ⟨ready, hready, hstep⟩ := Machine.step_eq_execute htrace hs hi
  subst hready
  rw [Machine.loop, hstep]
  exact ⟨_, rfl, rfl⟩

/-- A call at the limit fails, with the world as it is. -/
theorem fails_call {name : String} {callee : Blueprint} {limit : Nat}
    (hcallee : m.bytecode.get? name = some callee)
    (hlimit : m.atLimit (rest.length + 1) = some limit)
    (hi : a.blueprint.code[a.pc]? = some (.call name)) :
    ∃ fault s', m.loop 1 s = some (.error fault, s') ∧ fault.cause = .callDepth name limit ∧
      s'.world = w := by
  obtain ⟨ready, hready, hstep⟩ := Machine.step_eq_execute htrace hs hi
  subst hready
  have hperform : Action.perform (.call name) (ready.focus (a.advance 1 a.stack))
      = .ok (.call name) (ready.focus (a.advance 1 a.stack)) := rfl
  unfold Machine.execute at hstep
  rw [hperform] at hstep
  simp only [Machine.enter, hcallee, hlimit] at hstep
  rw [Machine.loop, hstep]
  exact ⟨_, _, rfl, rfl, rfl⟩

/-- A call below the limit takes its arguments and starts the function. -/
theorem goes_call {name : String} {callee : Blueprint} {args st : List Value}
    (hcallee : m.bytecode.get? name = some callee) (hlimit : m.atLimit (rest.length + 1) = none)
    (hst : a.stack = args.reverse ++ st) (hargs : args.length = callee.params)
    (hi : a.blueprint.code[a.pc]? = some (.call name)) :
    m.Goes s (Activation.enter callee args :: a.advance 1 st :: rest) w := by
  obtain ⟨ready, hready, hstep⟩ := Machine.step_eq_execute htrace hs hi
  subst hready
  have hperform : Action.perform (.call name) (ready.focus (a.advance 1 a.stack))
      = .ok (.call name) (ready.focus (a.advance 1 a.stack)) := rfl
  -- The arguments lie on the stack in reverse, the last one on top.
  have hpop : (a.advance 1 a.stack).popMany callee.params = .ok (args, a.advance 1 st) := by
    have hlen : callee.params = args.reverse.length := by rw [List.length_reverse, hargs]
    unfold Activation.popMany
    simp only [Activation.advance, hst]
    rw [if_pos (by rw [hlen, List.length_append]; omega), hlen, List.take_left, List.drop_left,
      List.reverse_reverse]
  unfold Machine.execute at hstep
  rw [hperform] at hstep
  simp only [Machine.enter, hcallee, hlimit, State.focus, hpop] at hstep
  exact ⟨_, hstep, rfl, rfl⟩

end Primitives

end RecordMachine
