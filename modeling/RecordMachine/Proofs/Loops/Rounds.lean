import Mathlib.Logic.Function.Iterate
import RecordMachine.Proofs.Machine.Progress
import RecordMachine.Proofs.Meaning.Variables

/-!
# Counting loops, round by round

A counting loop between two numbers is twelve instructions around its body: two that give the
counter its first value, four that compare it with the bound and leave the loop, and behind the body
five that move the counter and go back, and the place where the loop is left. `CountingLoop` is such
a loop in the code of a function, of whose body it is known that control leaves it at its end only,
unless the function returns.

What a machine does in a loop is told by the moments at which the body is entered: the outcome of
the comparison is true and the conditional jump comes next (`CountingLoop.entering?`).
`l.Runs m below vs s s'` says that the machine gets from `s` to `s'` inside the loop and enters the
body with the counter at `vs`, one number after the other. From the test to the test it is one round
(`CountingLoop.round`) or the way out (`CountingLoop.leaves`), and rounds follow each other as long
as the counter has not passed the bound (`CountingLoop.rounds`).

The body may do anything, call functions included, as long as it comes to its end
(`CountingLoop.Regular`). While functions that it calls are at work, the activation of the loop
waits below them, and nothing but its own instructions moves its index or its counter
(`CountingLoop.working_step`).
-/

namespace RecordMachine

/-! ## Runs with their states -/

namespace Machine

variable {m : Machine} {s mid s' : State}

/-- A step that does not end the run counts as executed. -/
theorem executed_of_next (hstep : m.step s = .next mid) (n : Nat) :
    m.executed (n + 1) s = s :: m.executed n mid := by
  obtain ⟨a, rest, i, hframes, hi, _⟩ := executes_of_next hstep
  have hnext : s.instruction? = some i := by
    unfold State.instruction?
    rw [hframes]
    exact hi
  rw [executed, hnext, hstep]

/-- What is executed in two stretches of a run is executed in one after the other. -/
theorem executed_of_steps {k : Nat} (hsteps : m.Steps k s mid) (n : Nat) :
    m.executed (k + n) s = m.executed k s ++ m.executed n mid := by
  induction hsteps with
  | refl s => rw [Nat.zero_add, executed, List.nil_append]
  | head hstep _ ih =>
    rw [Nat.add_right_comm, executed_of_next hstep, executed_of_next hstep, ih, List.cons_append]

/-- A state that a run gets to before its last one counts as executed. -/
theorem mem_executed_of_lt {k n : Nat} (hsteps : m.Steps k s mid) (hsteps' : m.Steps n s s')
    (hlt : k < n) : mid ∈ m.executed n s := by
  induction hsteps generalizing n with
  | refl s =>
    cases hsteps' with
    | refl => exact absurd hlt (Nat.lt_irrefl 0)
    | head hstep _ =>
      rw [executed_of_next hstep]
      exact List.mem_cons_self
  | head hstep _ ih =>
    cases hsteps' with
    | refl => exact absurd hlt (Nat.not_lt_zero _)
    | head hstep' hrest =>
      cases hstep.symm.trans hstep'
      rw [executed_of_next hstep]
      exact List.mem_cons_of_mem _ (ih hrest (Nat.lt_of_succ_lt_succ hlt))

/-- As many states are executed as there are steps. -/
theorem length_executed {n : Nat} (hsteps : m.Steps n s s') : (m.executed n s).length = n := by
  induction hsteps with
  | refl s => rfl
  | head hstep _ ih => rw [executed_of_next hstep, List.length_cons, ih]

/-- The next step does not fail for a trace that cannot be written. -/
def Shows (m : Machine) (s : State) : Prop :=
  ∀ cause s', m.step s = .failed ⟨cause, none⟩ s' → cause.kind ≠ .io

/-- Without a trace there is nothing to write. -/
theorem shows_of_trace_false (htrace : m.settings.trace = false) (s : State) : m.Shows s := by
  intro cause s' hstep
  rcases m.step_cases s with ⟨_, h⟩ | ⟨_, _, _, _, h⟩ | ⟨a, rest, i, hframes, hi, hexec⟩
  · cases h.symm.trans hstep
    exact nofun
  · cases h.symm.trans hstep
    exact nofun
  · rw [hstep] at hexec
    cases hexec with
    | unwritten htrue =>
      rw [htrace] at htrue
      cases htrue

/-- An instruction that goes on in any heap and with any console replaces the innermost
activation. -/
theorem step_of_perform {a top : Activation} {below : List Activation} {i : Instruction}
    (hshows : m.Shows s) (hframes : s.frames = a :: below) (hi : a.blueprint.code[a.pc]? = some i)
    (hperform : ∀ heap console, Action.perform i ⟨a.advance 1 a.stack, heap, console⟩ =
      .ok .next ⟨top, heap, console⟩) :
    ∃ s', m.step s = .next s' ∧ s'.frames = top :: below := by
  obtain ⟨ready, _, _, _, hstep | ⟨cause, _, hkind, hstep⟩⟩ := step_eq (m := m) hframes hi
  · have hfocus : Action.perform i (ready.focus { a with pc := a.pc + 1 }) = _ :=
      hperform ready.heap ready.console
    unfold execute at hstep
    rw [hfocus] at hstep
    exact ⟨_, hstep, rfl⟩
  · exact absurd hkind (hshows cause ready hstep)

end Machine

/-! ## Instructions -/

namespace Instruction

def Assigns (i : Instruction) (slot : Nat) : Prop :=
  i.opcode = .store ∧ Operand.slot? i.operand = some slot

variable {i : Instruction} {a top : Activation} {h h' : Heap}

/-- Only setting a slot changes its value. -/
theorem Effect.slot_eq (heffect : i.Effect a h top h') {slot : Nat} {v : Value}
    (hslot : a.slots[slot]? = some v) (hassigns : ¬i.Assigns slot) : top.slots[slot]? = some v := by
  cases heffect with
  | @store other _ _ hop hother _ =>
    have hne : slot ≠ other := by
      rintro rfl
      exact hassigns ⟨hop, hother⟩
    exact Activation.getElem?_store_of_ne hne hslot
  | _ => exact hslot

end Instruction

namespace Action

variable {a : Activation} {v : Value} {st : List Value}

theorem perform_load {slot : Nat} (hv : a.slots[slot]? = some v) (heap : Heap) (console : Console) :
    perform (.load slot) ⟨a.advance 1 a.stack, heap, console⟩ =
      .ok .next ⟨a.advance 1 (v :: a.stack), heap, console⟩ := by
  have hload : (a.advance 1 a.stack).load slot = .ok v := by
    unfold Activation.load
    rw [show (a.advance 1 a.stack).slots = a.slots from rfl, hv]
  simp only [perform, Instruction.load, need, Operand.slot?, bind, EStateM.bind, Action.load, hload]
  rfl

theorem perform_store {slot : Nat} (hst : a.stack = v :: st) (heap : Heap) (console : Console) :
    perform (.store slot) ⟨a.advance 1 a.stack, heap, console⟩ =
      .ok .next ⟨(a.advance 1 st).store slot v, heap, console⟩ := by
  rw [hst]
  rfl

/-- A binary instruction replaces its operands by the result, if there is one. -/
theorem perform_binary {i : Instruction} {f : Value → Value → Except Cause Value} {u w : Value}
    (hst : a.stack = v :: u :: st) (hbinary : perform i = (do binary f; return .next))
    (hf : f u v = .ok w) (heap : Heap) (console : Console) :
    perform i ⟨a.advance 1 a.stack, heap, console⟩ =
      .ok .next ⟨a.advance 1 (w :: st), heap, console⟩ := by
  -- The right operand lies on top.
  rw [hbinary, hst]
  simp only [binary, bind, EStateM.bind, pop, Activation.pop, Activation.advance, hf]
  rfl

end Action

/-! ## Numbers -/

namespace Direction

/-- Whether a counter has not passed its bound. -/
def admits (direction : Direction) (counter bound : Int64) : Bool :=
  match direction with
  | .upTo => counter ≤ bound
  | .downTo => bound ≤ counter

/-- The number that comes next. It wraps around at the end of the range of a word. -/
def successor (direction : Direction) (counter : Int64) : Int64 :=
  match direction with
  | .upTo => counter + 1
  | .downTo => counter - 1

/-- The test of a counting loop is a comparison. -/
theorem perform_comparison (direction : Direction) :
    Action.perform (.plain direction.test) =
      (do Action.binary (Value.comparison direction.test); return .next) := by
  cases direction <;> rfl

/-- The counter is moved by an addition or a subtraction. -/
theorem perform_arithmetic (direction : Direction) :
    Action.perform (.plain direction.advance) =
      (do Action.binary (Value.arithmetic direction.advance); return .next) := by
  cases direction <;> rfl

/-- Between two numbers the comparison comes out as `Direction.admits` says. -/
theorem comparison_test (direction : Direction) (counter bound : Int64) :
    Value.comparison direction.test (.int counter) (.int bound) =
      .ok (.bool (direction.admits counter bound)) := by
  cases direction with
  | upTo =>
    have hle : (compare counter bound).isLE = decide (counter ≤ bound) :=
      Bool.eq_iff_iff.2 (Std.isLE_compare.trans decide_eq_true_iff.symm)
    exact congrArg (fun b => Except.ok (Value.bool b)) hle
  | downTo =>
    have hge : (compare counter bound).isGE = decide (bound ≤ counter) :=
      Bool.eq_iff_iff.2 (Std.isGE_compare.trans decide_eq_true_iff.symm)
    exact congrArg (fun b => Except.ok (Value.bool b)) hge

/-- Moving the counter by one never fails. -/
theorem arithmetic_advance (direction : Direction) (counter : Int64) :
    Value.arithmetic direction.advance (.int counter) (.int 1) =
      .ok (.int (direction.successor counter)) := by
  cases direction <;> rfl

end Direction

/-! ## Loops -/

/-- A counting loop between two numbers in the code of a function. -/
structure CountingLoop where
  blueprint : Blueprint
  direction : Direction
  /-- The slot of the counter. -/
  slot : Nat
  /-- The index at which the loop stands. -/
  base : Nat
  first : Int64
  last : Int64
  body : Code
  placed : Placed blueprint.code base
    (forCode direction slot (base + 2) [.push (.int first)] [.push (.int last)] body)
  /-- No jump leads out of the body, except to its end. -/
  stays : ∀ i ∈ body, ∀ target, i.jumpTarget? = some target →
    base + 6 ≤ target ∧ target ≤ base + 6 + body.length

namespace CountingLoop

def code (l : CountingLoop) : Code :=
  forCode l.direction l.slot (l.base + 2) [.push (.int l.first)] [.push (.int l.last)] l.body

def again (l : CountingLoop) : Nat := l.base + 2

/-- The index of the conditional jump behind the comparison. -/
def exit (l : CountingLoop) : Nat := l.base + 5

def start (l : CountingLoop) : Nat := l.base + 6

/-- The index at which the body has come to its end. -/
def finish (l : CountingLoop) : Nat := l.base + 6 + l.body.length

def stop (l : CountingLoop) : Nat := l.base + 12 + l.body.length

variable (l : CountingLoop)

/-- Twelve instructions stand around the body. -/
theorem length_code : l.code.length = 12 + l.body.length := by
  unfold code
  rw [length_forCode]
  simp only [List.length_cons, List.length_nil]
  omega

/-- The three parts of the loop around its body. -/
theorem code_eq : l.code = [.push (.int l.first), .store l.slot] ++
    ([.load l.slot, .push (.int l.last), .plain l.direction.test, .jumpIfFalse (l.finish + 5)] ++
      (l.body ++ [.load l.slot, .push (.int 1), .plain l.direction.advance, .store l.slot,
        .jump l.again, .plain .nop])) := by
  have hlanding : l.base + 2 + ([Instruction.push (.int l.last)].length + 2) + 1 + l.body.length + 5
      = l.finish + 5 := by
    unfold finish
    rw [List.length_singleton]
  unfold code forCode
  rw [hlanding, List.append_assoc l.body]
  rfl

/-- The body can be found in the code by its place. -/
theorem body_eq : l.body = (l.code.drop 6).take (l.code.length - 12) := by
  rw [length_code, Nat.add_sub_cancel_left, code_eq]
  exact List.take_left.symm

/-- Where the parts of the loop stand in the code of the function. -/
theorem layout :
    Placed l.blueprint.code l.base [.push (.int l.first), .store l.slot] ∧
    Placed l.blueprint.code l.again
      [.load l.slot, .push (.int l.last), .plain l.direction.test, .jumpIfFalse (l.finish + 5)] ∧
    Placed l.blueprint.code l.start l.body ∧
    Placed l.blueprint.code l.finish
      [.load l.slot, .push (.int 1), .plain l.direction.advance, .store l.slot, .jump l.again,
        .plain .nop] := by
  have hcode : Placed l.blueprint.code l.base l.code := l.placed
  rw [code_eq] at hcode
  exact ⟨hcode.append.1, hcode.append.2.append.1, hcode.append.2.append.2.append⟩

/-! ## Inside a loop -/

/-- The machine is in the loop: the activation above `below` stands at an index of the loop, or
waits there for a function that it called. -/
def Running (below : List Activation) (s : State) : Prop :=
  ∃ inner a, s.frames = inner ++ a :: below ∧ a.blueprint = l.blueprint ∧
    l.base ≤ a.pc ∧ a.pc < l.stop

/-- The activation above `below` is innermost and stands at an index. -/
def At (below : List Activation) (index : Nat) (s : State) : Prop :=
  ∃ a, s.frames = a :: below ∧ a.blueprint = l.blueprint ∧ a.pc = index

/-- The activation above `below` is innermost and stands at an index, with the counter at `v`. -/
def Stands (below : List Activation) (index : Nat) (v : Int64) (s : State) : Prop :=
  ∃ a, s.frames = a :: below ∧ a.blueprint = l.blueprint ∧ a.pc = index ∧
    a.slots[l.slot]? = some (.int v)

/-- The counter at the moment at which the body is entered: the comparison has come out true, and
the conditional jump comes next. -/
def entering? (below : List Activation) (s : State) : Option Int64 :=
  match s.frames with
  | [] => none
  | a :: rest =>
    match a.stack, a.slots[l.slot]? with
    | .bool true :: _, some (.int v) =>
      if rest = below ∧ a.blueprint = l.blueprint ∧ a.pc = l.exit then some v else none
    | _, _ => none

/-- The machine gets from one state to another inside the loop, and enters the body with the counter
at `vs`, one number after the other. -/
def Runs (m : Machine) (below : List Activation) (vs : List Int64) (s s' : State) : Prop :=
  ∃ n, m.Steps n s s' ∧ (∀ e ∈ m.executed n s, l.Running below e) ∧
    (m.executed n s).filterMap (l.entering? below) = vs

/-- The body is being executed: the activation above `below` is there, and if it is innermost, it is
not at the end of the body and not about to set the counter. -/
def Busy (below : List Activation) (s : State) : Prop :=
  ∃ inner a, s.frames = inner ++ a :: below ∧ (inner = [] → a.pc ≠ l.finish ∧
    ∀ i, a.blueprint.code[a.pc]? = some i → ¬i.Assigns l.slot)

/-- From `s` on nothing but the counter decides how the loop goes. -/
structure Regular (m : Machine) (below : List Activation) (s : State) : Prop where
  /-- Where a trace is wanted, it can be written. -/
  shows : ∀ vs s₁, l.Runs m below vs s s₁ → m.Shows s₁
  /-- Once entered, the body comes to its end without failing, returning or setting the counter. -/
  completes : ∀ vs s₁ v s₂, l.Runs m below vs s s₁ → l.entering? below s₁ = some v →
    m.step s₁ = .next s₂ →
    ∃ n s₃, m.Steps n s₂ s₃ ∧ (∀ e ∈ m.executed n s₂, l.Busy below e) ∧ l.At below l.finish s₃

variable {l} {m : Machine} {below : List Activation} {s mid s' : State} {vs vs' : List Int64}
  {v : Int64}

theorem Runs.refl (s : State) : l.Runs m below [] s s :=
  ⟨0, .refl s, List.forall_mem_nil _, rfl⟩

/-- Two stretches inside the loop make one, and so do the numbers with which the body is entered. -/
theorem Runs.trans (h : l.Runs m below vs s mid) (h' : l.Runs m below vs' mid s') :
    l.Runs m below (vs ++ vs') s s' := by
  obtain ⟨k, hsteps, hrunning, hvs⟩ := h
  obtain ⟨n, hsteps', hrunning', hvs'⟩ := h'
  refine ⟨k + n, hsteps.trans hsteps', ?_, ?_⟩
  · rw [Machine.executed_of_steps hsteps]
    exact List.forall_mem_append.2 ⟨hrunning, hrunning'⟩
  · rw [Machine.executed_of_steps hsteps, List.filterMap_append, hvs, hvs']

/-- One step inside the loop enters the body at most once. -/
theorem Runs.single (hrunning : l.Running below s) (hstep : m.step s = .next s') :
    l.Runs m below (l.entering? below s).toList s s' := by
  refine ⟨1, .single hstep, ?_, ?_⟩
  · rw [Machine.executed_of_next hstep]
    exact List.forall_mem_singleton.2 hrunning
  · rw [Machine.executed_of_next hstep, List.filterMap_cons]
    cases l.entering? below s <;> rfl

/-- What holds from one state of the loop on holds from any later one on. -/
theorem Regular.after (h : l.Regular m below s) (hruns : l.Runs m below vs s s') :
    l.Regular m below s' where
  shows := fun _ _ hruns' => h.shows _ _ (hruns.trans hruns')
  completes := fun _ _ _ _ hruns' => h.completes _ _ _ _ (hruns.trans hruns')

/-- The body is entered by the activation above `below` and from one index only. -/
theorem entering?_eq_none {a : Activation} {rest : List Activation} (hframes : s.frames = a :: rest)
    (hne : rest ≠ below ∨ a.pc ≠ l.exit) : l.entering? below s = none := by
  unfold entering?
  rw [hframes]
  dsimp only
  split
  · rw [if_neg]
    rintro ⟨hrest, _, hpc⟩
    exact hne.elim (absurd hrest) (absurd hpc)
  · rfl

/-- At the moment at which the body is entered, the activation stands before the conditional jump
with `true` on its stack. -/
theorem entering?_eq_some (h : l.entering? below s = some v) :
    ∃ a st, s.frames = a :: below ∧ a.blueprint = l.blueprint ∧ a.pc = l.exit ∧
      a.slots[l.slot]? = some (.int v) ∧ a.stack = .bool true :: st := by
  unfold entering? at h
  split at h
  · cases h
  · next a rest hframes =>
    split at h
    · next st v' hstack hslot =>
      split at h
      · next hplace =>
        obtain ⟨rfl, hb, hpc⟩ := hplace
        cases h
        exact ⟨a, st, hframes, hb, hpc, hslot, hstack⟩
      · cases h
    · cases h

/-! ## The body -/

variable (l) in
/-- The body is being executed or has come to its end: its activation stands in the body or waits
there, with the counter at `v`. -/
def Working (below : List Activation) (v : Int64) (s : State) : Prop :=
  ∃ inner a, s.frames = inner ++ a :: below ∧ a.blueprint = l.blueprint ∧
    l.start ≤ a.pc ∧ a.pc ≤ l.finish ∧ a.slots[l.slot]? = some (.int v)

/-- The instructions between the start and the end of the body are those of the body. -/
theorem mem_body {pc : Nat} {i : Instruction} (hstart : l.start ≤ pc) (hlt : pc < l.finish)
    (hi : l.blueprint.code[pc]? = some i) : i ∈ l.body := by
  unfold start at hstart
  unfold finish at hlt
  have hinside : pc - l.start < l.body.length := by
    unfold start
    omega
  have hplaced := l.layout.2.2.1 _ _ (List.getElem?_eq_getElem hinside)
  have hindex : l.start + (pc - l.start) = pc := by
    unfold start
    omega
  rw [hindex, hi] at hplaced
  rw [Option.some.inj hplaced]
  exact List.getElem_mem hinside

/-- A step of the body, if the function does not return, is one inside the body. -/
theorem working_step (hs : l.Working below v s) (hbusy : l.Busy below s)
    (hstep : m.step s = .next s') (hopen : ∃ inner a, s'.frames = inner ++ a :: below) :
    l.Working below v s' := by
  obtain ⟨inner, a, hframes, hb, hstart, hfinish, hslot⟩ := hs
  obtain ⟨b, rest, i, hframes₁, hi, hexec⟩ := Machine.executes_of_next hstep
  rw [hframes] at hframes₁
  cases inner with
  | nil =>
    -- The instruction is one of the body.
    obtain ⟨rfl, rfl⟩ := List.cons.inj hframes₁
    obtain ⟨hne, hassigns⟩ : a.pc ≠ l.finish ∧
        ∀ i, a.blueprint.code[a.pc]? = some i → ¬i.Assigns l.slot := by
      obtain ⟨inner, a', hframes', hbusy⟩ := hbusy
      obtain ⟨rfl, hsame⟩ := List.append_inj' (hframes.symm.trans hframes') rfl
      cases hsame
      exact hbusy rfl
    have hlt : a.pc < l.finish := Nat.lt_of_le_of_ne hfinish hne
    have hi' : i ∈ l.body := mem_body hstart hlt (hb ▸ hi)
    cases hexec with
    | effect heffect hframes' _ =>
      refine ⟨[], _, hframes', heffect.blueprint_eq.trans hb, ?_⟩
      have hslot' := heffect.slot_eq hslot (hassigns i hi)
      rcases heffect.pc_eq with hnext | htarget
      · rw [hnext]
        exact ⟨Nat.le_succ_of_le hstart, hlt, hslot'⟩
      · exact ⟨(l.stays i hi' _ htarget).1, (l.stays i hi' _ htarget).2, hslot'⟩
    | call _ _ _ _ hframes' _ =>
      exact ⟨[_], _, hframes', hb, Nat.le_succ_of_le hstart, hlt, hslot⟩
    | ret _ hrest _ hframes' _ =>
      -- A return would leave as many activations as there are below, and one more is open.
      obtain ⟨inner, c, hopen⟩ := hopen
      have hlength := congrArg List.length (hframes'.symm.trans hopen)
      rw [hrest] at hlength
      simp only [List.length_append, List.length_cons] at hlength
      omega
  | cons b' inner =>
    -- A function that the body called is at work; only the return from it can reach the loop.
    obtain ⟨rfl, rfl⟩ := List.cons.inj hframes₁
    cases hexec with
    | effect _ hframes' _ => exact ⟨_ :: inner, a, hframes', hb, hstart, hfinish, hslot⟩
    | call _ _ _ _ hframes' _ => exact ⟨_ :: _ :: inner, a, hframes', hb, hstart, hfinish, hslot⟩
    | ret _ hrest _ hframes' _ =>
      cases inner with
      | nil =>
        obtain ⟨rfl, rfl⟩ := List.cons.inj hrest
        exact ⟨[], _, hframes', hb, hstart, hfinish, hslot⟩
      | cons c inner =>
        obtain ⟨rfl, rfl⟩ := List.cons.inj hrest
        exact ⟨_ :: inner, a, hframes', hb, hstart, hfinish, hslot⟩

/-- The body is inside the loop. -/
theorem Working.running (h : l.Working below v s) : l.Running below s := by
  obtain ⟨inner, a, hframes, hb, hstart, hfinish, _⟩ := h
  unfold start at hstart
  unfold finish at hfinish
  refine ⟨inner, a, hframes, hb, ?_, ?_⟩
  · omega
  · unfold stop
    omega

/-- The body is not entered from inside. -/
theorem Working.entering?_eq_none (h : l.Working below v s) : l.entering? below s = none := by
  obtain ⟨inner, a, hframes, hb, hstart, hfinish, _⟩ := h
  cases inner with
  | nil =>
    refine CountingLoop.entering?_eq_none hframes (.inr ?_)
    unfold start at hstart
    unfold exit
    omega
  | cons b inner =>
    -- With a called function on top, more than `below` lies under the innermost activation.
    refine CountingLoop.entering?_eq_none hframes (.inl ?_)
    intro hsame
    have hlength : (inner ++ a :: below).length = below.length := congrArg List.length hsame
    rw [List.length_append, List.length_cons] at hlength
    omega

/-- The way through the body is one inside the loop, and the counter stays as it is. -/
theorem runs_of_busy {n : Nat} (hsteps : m.Steps n s s')
    (hbusy : ∀ e ∈ m.executed n s, l.Busy below e)
    (hopen : ∃ inner a, s'.frames = inner ++ a :: below) (hs : l.Working below v s) :
    l.Runs m below [] s s' ∧ l.Working below v s' := by
  induction hsteps with
  | refl s => exact ⟨.refl s, hs⟩
  | @head n s mid s' hstep hrest ih =>
    rw [Machine.executed_of_next hstep] at hbusy
    obtain ⟨hhere, hlater⟩ := List.forall_mem_cons.1 hbusy
    -- That the function has not returned shows in the next state, be it busy or the last one.
    have hmid : ∃ inner a, mid.frames = inner ++ a :: below := by
      cases hrest with
      | refl => exact hopen
      | head hstep' _ =>
        rw [Machine.executed_of_next hstep'] at hlater
        obtain ⟨inner, a, hframes, _⟩ := (List.forall_mem_cons.1 hlater).1
        exact ⟨inner, a, hframes⟩
    obtain ⟨hruns, hend⟩ := ih hlater hopen (working_step hs hhere hstep hmid)
    have hfirst := Runs.single hs.running hstep
    rw [hs.entering?_eq_none] at hfirst
    exact ⟨hfirst.trans hruns, hend⟩

/-! ## Instructions of the loop -/

variable (l m below) in
/-- From where the activation above `below` is `a`, the machine gets to where it is `a'`, inside the
loop and without entering the body. -/
def Does (a a' : Activation) : Prop :=
  ∀ s, l.Regular m below s → s.frames = a :: below →
    ∃ s', l.Runs m below [] s s' ∧ s'.frames = a' :: below

/-- Instructions of the loop can be put together. -/
theorem Does.trans {a a' a'' : Activation} (h : l.Does m below a a') (h' : l.Does m below a' a'') :
    l.Does m below a a'' := by
  intro s hregular hframes
  obtain ⟨mid, hruns, hframes'⟩ := h s hregular hframes
  obtain ⟨s', hruns', hframes''⟩ := h' mid (hregular.after hruns) hframes'
  exact ⟨s', hruns.trans hruns', hframes''⟩

variable (l) in
/-- The index belongs to the loop and is not that of the conditional jump. -/
def Around (pc : Nat) : Prop := l.base ≤ pc ∧ pc < l.stop ∧ pc ≠ l.exit

section Instructions

variable {a : Activation} (hb : a.blueprint = l.blueprint) (hin : l.Around a.pc)

include hb hin

/-- An instruction around the body that goes on enters nothing. -/
theorem does_instruction {i : Instruction} {top : Activation}
    (hi : l.blueprint.code[a.pc]? = some i)
    (hperform : ∀ heap console, Action.perform i ⟨a.advance 1 a.stack, heap, console⟩ =
      .ok .next ⟨top, heap, console⟩) : l.Does m below a top := by
  intro s hregular hframes
  obtain ⟨s', hstep, hframes'⟩ :=
    Machine.step_of_perform (hregular.shows _ _ (.refl s)) hframes (hb ▸ hi) hperform
  have hruns := Runs.single (l := l) ⟨[], a, hframes, hb, hin.1, hin.2.1⟩ hstep
  rw [entering?_eq_none hframes (.inr hin.2.2)] at hruns
  exact ⟨s', hruns, hframes'⟩

theorem does_push {v : Value} (hi : l.blueprint.code[a.pc]? = some (.push v)) :
    l.Does m below a (a.advance 1 (v :: a.stack)) :=
  does_instruction hb hin hi fun _ _ => rfl

theorem does_nop (hi : l.blueprint.code[a.pc]? = some (.plain .nop)) :
    l.Does m below a (a.advance 1 a.stack) :=
  does_instruction hb hin hi fun _ _ => rfl

theorem does_jump {target : Nat} (hi : l.blueprint.code[a.pc]? = some (.jump target)) :
    l.Does m below a { a with pc := target } :=
  does_instruction hb hin hi fun _ _ => rfl

theorem does_load {v : Value} (hv : a.slots[l.slot]? = some v)
    (hi : l.blueprint.code[a.pc]? = some (.load l.slot)) :
    l.Does m below a (a.advance 1 (v :: a.stack)) :=
  does_instruction hb hin hi (Action.perform_load hv)

theorem does_store {v : Value} {st : List Value} (hst : a.stack = v :: st)
    (hi : l.blueprint.code[a.pc]? = some (.store l.slot)) :
    l.Does m below a ((a.advance 1 st).store l.slot v) :=
  does_instruction hb hin hi (Action.perform_store hst)

theorem does_binary {i : Instruction} {f : Value → Value → Except Cause Value} {u v w : Value}
    {st : List Value} (hst : a.stack = v :: u :: st) (hi : l.blueprint.code[a.pc]? = some i)
    (hbinary : Action.perform i = (do Action.binary f; return .next)) (hf : f u v = .ok w) :
    l.Does m below a (a.advance 1 (w :: st)) :=
  does_instruction hb hin hi (Action.perform_binary hst hbinary hf)

end Instructions

/-! ## Rounds -/

theorem starts (hregular : l.Regular m below s) (hs : l.At below l.base s) :
    ∃ s', l.Runs m below [] s s' ∧ l.Stands below l.again l.first s' := by
  obtain ⟨⟨blueprint, slots, stack, pc⟩, hframes, hb, hpc⟩ := hs
  obtain rfl : blueprint = l.blueprint := hb
  obtain rfl : pc = l.base := hpc
  obtain ⟨hplaced, _⟩ := l.layout
  have hin : ∀ j < 2, l.Around (l.base + j) := by
    intro j hj
    unfold Around exit stop
    omega
  -- The first value is put on the stack and stored.
  have hstored : l.Does m below ⟨l.blueprint, slots, stack, l.base⟩
      (Activation.store ⟨l.blueprint, slots, stack, l.again⟩ l.slot (.int l.first)) :=
    .trans (does_push rfl (hin 0 (by omega)) hplaced.head)
      (does_store rfl (hin 1 (by omega)) rfl hplaced.tail.head)
  obtain ⟨s', hruns, hframes'⟩ := hstored s hregular hframes
  refine ⟨s', hruns, _, hframes', ?_, ?_, ?_⟩
  · exact Activation.blueprint_store _ _ _
  · exact Activation.pc_store _ _ _
  · exact Activation.getElem?_store_self _ _ _

theorem does_comparison {slots stack : List Value} (hv : slots[l.slot]? = some (.int v)) :
    l.Does m below ⟨l.blueprint, slots, stack, l.again⟩
      ⟨l.blueprint, slots, .bool (l.direction.admits v l.last) :: stack, l.exit⟩ := by
  obtain ⟨_, hplaced, _⟩ := l.layout
  have hin : ∀ j < 3, l.Around (l.again + j) := by
    intro j hj
    unfold Around again exit stop
    omega
  refine Does.trans (does_load rfl (hin 0 (by omega)) hv hplaced.head) ?_
  refine Does.trans (does_push rfl (hin 1 (by omega)) hplaced.tail.head) ?_
  exact does_binary rfl (hin 2 (by omega)) rfl hplaced.tail.tail.head
    (Direction.perform_comparison _) (Direction.comparison_test _ _ _)

theorem advances (hregular : l.Regular m below s) (hs : l.Stands below l.finish v s) :
    ∃ s', l.Runs m below [] s s' ∧ l.Stands below l.again (l.direction.successor v) s' := by
  obtain ⟨⟨blueprint, slots, stack, pc⟩, hframes, hb, hpc, hv⟩ := hs
  obtain rfl : blueprint = l.blueprint := hb
  obtain rfl : pc = l.finish := hpc
  obtain ⟨_, _, _, hplaced⟩ := l.layout
  have hin : ∀ j < 5, l.Around (l.finish + j) := by
    intro j hj
    unfold Around finish exit stop
    omega
  -- Four instructions for the counter and the jump back to the test.
  have hmoved : l.Does m below ⟨l.blueprint, slots, stack, l.finish⟩
      { Activation.store ⟨l.blueprint, slots, stack, l.finish + 4⟩ l.slot
          (.int (l.direction.successor v)) with pc := l.again } := by
    refine Does.trans (does_load rfl (hin 0 (by omega)) hv hplaced.head) ?_
    refine Does.trans (does_push rfl (hin 1 (by omega)) hplaced.tail.head) ?_
    refine Does.trans (does_binary rfl (hin 2 (by omega)) rfl hplaced.tail.tail.head
      (Direction.perform_arithmetic _) (Direction.arithmetic_advance _ _)) ?_
    refine Does.trans (does_store rfl (hin 3 (by omega)) rfl hplaced.tail.tail.tail.head) ?_
    refine does_jump (Activation.blueprint_store _ _ _) ?_ ?_
    · rw [Activation.pc_store]
      exact hin 4 (by omega)
    · rw [Activation.pc_store]
      exact hplaced.tail.tail.tail.tail.head
  obtain ⟨s', hruns, hframes'⟩ := hmoved s hregular hframes
  refine ⟨s', hruns, _, hframes', Activation.blueprint_store _ _ _, rfl, ?_⟩
  exact Activation.getElem?_store_self _ _ _

/-- With `true` on the stack the conditional jump enters the body. -/
theorem entering?_of_true {slots stack : List Value} (hv : slots[l.slot]? = some (.int v))
    (hframes : s.frames = ⟨l.blueprint, slots, .bool true :: stack, l.exit⟩ :: below) :
    l.entering? below s = some v := by
  unfold entering?
  rw [hframes]
  simp only [hv, and_self, if_true]

/-- The conditional jump goes on with the body or leads to the end of the loop. -/
theorem step_exit {slots stack : List Value} {b : Bool} (hshows : m.Shows s)
    (hframes : s.frames = ⟨l.blueprint, slots, .bool b :: stack, l.exit⟩ :: below) :
    ∃ s', m.step s = .next s' ∧
      s'.frames = ⟨l.blueprint, slots, stack, if b then l.start else l.finish + 5⟩ :: below := by
  obtain ⟨_, hplaced, _⟩ := l.layout
  refine Machine.step_of_perform hshows hframes hplaced.tail.tail.tail.head ?_
  intro heap console
  cases b <;> rfl

/-- Once the body is entered, its first instruction comes next. -/
theorem stands_of_entering (h : l.entering? below s = some v) (hstep : m.step s = .next s') :
    l.Stands below l.start v s' := by
  obtain ⟨⟨blueprint, slots, stack, pc⟩, st, hframes, hb, hpc, hv, hst⟩ := entering?_eq_some h
  obtain rfl : blueprint = l.blueprint := hb
  obtain rfl : pc = l.exit := hpc
  obtain rfl : stack = .bool true :: st := hst
  have hshows : m.Shows s := by
    intro _ _ hfailed
    cases hstep.symm.trans hfailed
  obtain ⟨s₁, hstep₁, hframes₁⟩ := step_exit hshows hframes
  cases hstep.symm.trans hstep₁
  exact ⟨_, hframes₁, rfl, rfl, hv⟩

/-- Once the body is entered, its activation stands in it, with the counter as it was compared. -/
theorem working_of_entering (h : l.entering? below s = some v) (hstep : m.step s = .next s') :
    l.Working below v s' := by
  obtain ⟨a, hframes, hb, hpc, hv⟩ := stands_of_entering h hstep
  exact ⟨[], a, hframes, hb, Nat.le_of_eq hpc.symm, hpc ▸ Nat.le_add_right _ _, hv⟩

/-- The conditional jump belongs to the loop. -/
theorem running_exit {slots stack : List Value}
    (hframes : s.frames = ⟨l.blueprint, slots, stack, l.exit⟩ :: below) : l.Running below s := by
  refine ⟨[], _, hframes, rfl, ?_, ?_⟩
  · exact Nat.le_add_right l.base 5
  · show l.base + 5 < l.base + 12 + l.body.length
    omega

/-- The body, entered with the counter at `v`, is gone through. -/
theorem runs_body (hregular : l.Regular m below s) (hentering : l.entering? below s = some v)
    (hrunning : l.Running below s) (hstep : m.step s = .next mid) :
    ∃ s', l.Runs m below [v] s s' ∧ l.Stands below l.finish v s' := by
  obtain ⟨n, s', hsteps, hbusy, a, hframes, hb, hpc⟩ :=
    hregular.completes _ _ _ _ (.refl s) hentering hstep
  obtain ⟨hruns, inner, a', hframes', _, _, _, hv⟩ :=
    runs_of_busy hsteps hbusy ⟨[], a, hframes⟩ (working_of_entering hentering hstep)
  -- The activation that has come to the end is the one that holds the counter.
  obtain ⟨rfl, hsame⟩ := List.append_inj' (hframes'.symm.trans hframes : _ = [] ++ a :: below) rfl
  cases hsame
  have hfirst := Runs.single hrunning hstep
  rw [hentering] at hfirst
  exact ⟨s', hfirst.trans hruns, a, hframes, hb, hpc, hv⟩

/-- One round: the body is entered with the counter as it is, and then the counter is moved. -/
theorem round (hregular : l.Regular m below s) (hs : l.Stands below l.again v s)
    (hadmits : l.direction.admits v l.last = true) :
    ∃ s', l.Runs m below [v] s s' ∧ l.Stands below l.again (l.direction.successor v) s' := by
  obtain ⟨⟨blueprint, slots, stack, pc⟩, hframes, hb, hpc, hv⟩ := hs
  obtain rfl : blueprint = l.blueprint := hb
  obtain rfl : pc = l.again := hpc
  obtain ⟨s₁, htest, hframes₁⟩ := does_comparison hv s hregular hframes
  rw [hadmits] at hframes₁
  have hregular₁ := hregular.after htest
  obtain ⟨s₂, hstep, _⟩ := step_exit (hregular₁.shows _ _ (.refl s₁)) hframes₁
  -- The jump goes on with the body, which comes to its end with the counter unchanged.
  obtain ⟨s₃, hbody, hs₃⟩ :=
    runs_body hregular₁ (entering?_of_true hv hframes₁) (running_exit hframes₁) hstep
  obtain ⟨s', hmoved, hs'⟩ := advances (hregular₁.after hbody) hs₃
  exact ⟨s', (htest.trans hbody).trans hmoved, hs'⟩

theorem leaves (hregular : l.Regular m below s) (hs : l.Stands below l.again v s)
    (hadmits : l.direction.admits v l.last = false) :
    ∃ s', l.Runs m below [] s s' ∧ l.At below l.stop s' := by
  obtain ⟨⟨blueprint, slots, stack, pc⟩, hframes, hb, hpc, hv⟩ := hs
  obtain rfl : blueprint = l.blueprint := hb
  obtain rfl : pc = l.again := hpc
  obtain ⟨s₁, htest, hframes₁⟩ := does_comparison hv s hregular hframes
  rw [hadmits] at hframes₁
  have hregular₁ := hregular.after htest
  obtain ⟨s₂, hstep, hframes₂⟩ := step_exit (hregular₁.shows _ _ (.refl s₁)) hframes₁
  have hjump := Runs.single (running_exit hframes₁) hstep
  -- The comparison has come out false, so that the jump enters nothing.
  have hnone : l.entering? below s₁ = none := by
    unfold entering?
    rw [hframes₁]
  rw [hnone] at hjump
  obtain ⟨_, _, _, hplaced⟩ := l.layout
  have hin : l.Around (l.finish + 5) := by
    unfold Around finish exit stop
    omega
  obtain ⟨s', hlanded, hframes'⟩ :=
    does_nop (a := ⟨l.blueprint, slots, stack, l.finish + 5⟩) rfl hin
      hplaced.tail.tail.tail.tail.tail.head s₂ (hregular₁.after hjump) hframes₂
  refine ⟨s', (htest.trans hjump).trans hlanded, _, hframes', rfl, ?_⟩
  show l.base + 6 + l.body.length + 5 + 1 = l.base + 12 + l.body.length
  omega

/-- Rounds follow each other as long as the counter has not passed the bound. -/
theorem rounds (hregular : l.Regular m below s) (hs : l.Stands below l.again v s) (k : Nat)
    (hadmits : ∀ j < k, l.direction.admits (l.direction.successor^[j] v) l.last = true) :
    ∃ s', l.Runs m below ((List.range k).map fun j => l.direction.successor^[j] v) s s' ∧
      l.Stands below l.again (l.direction.successor^[k] v) s' := by
  -- The rounds are added at the end, so that the counter of the last one is the `k`-th iterate.
  induction k with
  | zero => exact ⟨s, .refl s, hs⟩
  | succ k ih =>
    obtain ⟨mid, hruns, hmid⟩ := ih fun j hj => hadmits j (Nat.lt_succ_of_lt hj)
    obtain ⟨s', hround, hs'⟩ := round (hregular.after hruns) hmid (hadmits k (Nat.lt_succ_self k))
    refine ⟨s', ?_, ?_⟩
    · rw [List.range_succ, List.map_append]
      exact hruns.trans hround
    · rw [Function.iterate_succ_apply']
      exact hs'

end CountingLoop

end RecordMachine
