import RecordMachine.Proofs.Machine.Trace

/-!
# Calls and returns

A call sets the caller aside, and nothing touches it until the call returns: every step works on the
innermost activation alone, and the return that ends the call is found by counting calls and returns
(`openCalls`). While the count goes on, the activations are those of the call on top of those that
were there before (`InCall`), which a step keeps (`Machine.step_inCall`) and therefore any trace.
None of this needs code that makes sense.
-/

namespace RecordMachine

/-- The number of calls in progress inside a function after one more of its instructions, if there
were `depth` before. There is none after the function's own return. -/
def Instruction.nest (depth : Nat) (i : Instruction) : Option Nat :=
  match i.opcode, depth with
  | .call, depth => some (depth + 1)
  | .ret, 0 => none
  | .ret, depth + 1 => some depth
  | _, depth => some depth

/-- The number of calls in progress inside a function that has executed these instructions, those of
the functions that it called included. There is none once it has returned. -/
def openCalls (is : List Instruction) : Option Nat := is.foldlM Instruction.nest 0

/-- The activations are those of a call of `callee` on top of `below`, with `depth` calls in
progress inside it. -/
def InCall (callee : Blueprint) (below : List Activation) (depth : Nat) (frames : List Activation) :
    Prop :=
  ∃ inner a, inner.length = depth ∧ a.blueprint = callee ∧ frames = inner ++ a :: below

section InCall

variable {callee : Blueprint} {below rest : List Activation} {depth : Nat} {a : Activation}

/-- The innermost activation may change if its blueprint stays. -/
theorem InCall.replace (h : InCall callee below depth (a :: rest)) {top : Activation}
    (htop : top.blueprint = a.blueprint) : InCall callee below depth (top :: rest) := by
  obtain ⟨inner, base, hlength, hbase, hframes⟩ := h
  cases inner with
  | nil =>
    obtain ⟨rfl, rfl⟩ := List.cons.inj hframes
    exact ⟨[], top, hlength, htop.trans hbase, rfl⟩
  | cons b inner =>
    obtain ⟨rfl, rfl⟩ := List.cons.inj hframes
    exact ⟨top :: inner, base, hlength, hbase, rfl⟩

/-- A call from inside is one more that is in progress. -/
theorem InCall.enter (h : InCall callee below depth rest) (top : Activation) :
    InCall callee below (depth + 1) (top :: rest) := by
  obtain ⟨inner, base, hlength, hbase, rfl⟩ := h
  exact ⟨top :: inner, base, congrArg (· + 1) hlength, hbase, rfl⟩

/-- A return from one of the calls inside leaves the others. -/
theorem InCall.leave (h : InCall callee below (depth + 1) (a :: rest)) :
    InCall callee below depth rest := by
  obtain ⟨inner, base, hlength, hbase, hframes⟩ := h
  cases inner with
  | nil => cases hlength
  | cons b inner =>
    obtain ⟨rfl, rfl⟩ := List.cons.inj hframes
    exact ⟨inner, base, Nat.succ.inj hlength, hbase, rfl⟩

/-- Without calls inside, the call itself is the innermost activation. -/
theorem InCall.of_head {frames : List Activation} (h : InCall callee below 0 frames)
    (hhead : frames.head? = some a) : frames = a :: below := by
  obtain ⟨inner, base, hlength, _, rfl⟩ := h
  cases List.length_eq_zero_iff.1 hlength
  cases hhead
  rfl

end InCall

/-- An instruction that goes on inside its activation is no call and no return. -/
theorem Instruction.Effect.opcode_ne {i : Instruction} {a top : Activation} {h h' : Heap}
    (heffect : i.Effect a h top h') : i.opcode ≠ .call ∧ i.opcode ≠ .ret := by
  cases heffect with
  | compute hop =>
    refine ⟨?_, ?_⟩ <;>
      · intro hsame
        rw [hsame] at hop
        cases hop
  | push hop | pop hop | load hop | store hop | jump hop | branch hop | write hop | alloc hop
  | free hop | setField hop | getField hop | dup hop | swap hop | nop hop =>
    rw [hop]
    exact ⟨nofun, nofun⟩

/-- So it leaves the number of calls in progress. -/
theorem Instruction.Effect.nest_eq {i : Instruction} {a top : Activation} {h h' : Heap}
    (heffect : i.Effect a h top h') (depth : Nat) : i.nest depth = some depth := by
  have hne := heffect.opcode_ne
  unfold Instruction.nest
  split
  · next hcall => exact absurd hcall hne.1
  · next hret => exact absurd hret hne.2
  · next hret => exact absurd hret hne.2
  · rfl

section Steps

variable {m : Machine} {callee : Blueprint} {below : List Activation} {depth : Nat}

/-- A step inside a call stays inside it, unless it is the return from it. -/
theorem Machine.step_inCall {s s' : State} {i : Instruction} {depth' : Nat}
    (hs : InCall callee below depth s.frames) (hi : s.instruction? = some i)
    (hnest : i.nest depth = some depth') (hstep : m.step s = .next s') :
    InCall callee below depth' s'.frames := by
  obtain ⟨a, rest, j, hframes, hj, hexec⟩ := Machine.executes_of_next hstep
  have hsame : j = i := by
    unfold State.instruction? at hi
    rw [hframes] at hi
    exact Option.some.inj (hj.symm.trans hi)
  subst hsame
  rw [hframes] at hs
  -- Inside the activation nothing is counted; a call and a return are counted as they go.
  cases hexec with
  | effect heffect hframes' _ =>
    rw [heffect.nest_eq] at hnest
    cases hnest
    rw [hframes']
    exact hs.replace heffect.blueprint_eq
  | call hop _ _ _ hframes' _ =>
    unfold Instruction.nest at hnest
    rw [hop] at hnest
    cases hnest
    rw [hframes']
    refine InCall.enter ?_ _
    exact hs.replace rfl
  | ret hop hrest _ hframes' _ =>
    subst hrest
    unfold Instruction.nest at hnest
    rw [hop] at hnest
    cases depth with
    | zero => cases hnest
    | succ depth =>
      cases hnest
      rw [hframes']
      exact hs.leave.replace rfl

/-- So do any steps. Induction on them, with the number of calls in progress that changes on the
way. -/
theorem Machine.Trace.inCall {s s' : State} {is : List Instruction} {depth' : Nat}
    (htrace : m.Trace s is s') (hs : InCall callee below depth s.frames)
    (hopen : is.foldlM Instruction.nest depth = some depth') :
    InCall callee below depth' s'.frames := by
  induction htrace generalizing depth with
  | nil s =>
    cases hopen
    exact hs
  | cons hi hstep _ ih =>
    obtain ⟨mid, hnest, hopen⟩ := Option.bind_eq_some_iff.1 hopen
    exact ih (Machine.step_inCall hs hi hnest hstep) hopen

/-- Also a step that fails inside a call leaves what is below. -/
theorem Machine.step_failed_inCall {s s' : State} {fault : Fault}
    (hs : InCall callee below depth s.frames) (hstep : m.step s = .failed fault s') :
    InCall callee below depth s'.frames := by
  obtain ⟨_, hsame | ⟨a, rest, i, left, hframes, _, _, hframes'⟩⟩ := Machine.left_of_failed hstep
  · rw [hsame]
    exact hs
  · rw [hframes']
    rw [hframes] at hs
    exact hs.replace rfl

/-- What a successful call does: the operands are split into those that stay and the arguments. -/
theorem Machine.step_call {s s' : State} {c : Activation} {fs : List Activation} {i : Instruction}
    {f : String} (hframes : s.frames = c :: fs) (hi : c.blueprint.code[c.pc]? = some i)
    (hop : i.opcode = .call) (hname : i.operand = some (.name f)) (hstep : m.step s = .next s') :
    ∃ callee base args, m.bytecode.get? f = some callee ∧ c.operands = base ++ args ∧
      args.length = callee.params ∧
      s'.frames = ⟨callee, args, [], 0⟩ ::
        { c with pc := c.pc + 1, stack := base.reverse } :: fs := by
  have hexec := Machine.step_executes (m := m) hframes hi
  rw [hstep] at hexec
  cases hexec with
  | effect heffect _ _ =>
    have hnest := heffect.nest_eq 0
    unfold Instruction.nest at hnest
    rw [hop] at hnest
    cases hnest
  | @call name callee _ _ hname' hcallee henough hframes' _ =>
    have hsame : name = f := by
      rw [hname] at hname'
      exact (Option.some.inj hname').symm
    subst hsame
    -- The stack has the last operand on top, the list of operands has it at the end.
    refine ⟨callee, (c.stack.drop callee.params).reverse, (c.stack.take callee.params).reverse,
      hcallee, ?_, ?_, ?_⟩
    · unfold Activation.operands
      rw [← List.reverse_append, List.take_append_drop]
    · rw [List.length_reverse, List.length_take]
      omega
    · rw [List.reverse_reverse]
      exact hframes'
  | ret hret =>
    rw [hop] at hret
    cases hret

/-- A return hands the operand on top to the caller, unless the trace could not be written. -/
theorem Machine.step_ret {s : State} {a c : Activation} {fs : List Activation} {i : Instruction}
    {v : Value} {left : List Value} (hframes : s.frames = a :: c :: fs)
    (hi : a.blueprint.code[a.pc]? = some i) (hop : i.opcode = .ret) (hstack : a.stack = v :: left) :
    (∃ s', m.step s = .next s' ∧ s'.frames = c.push v :: fs) ∨
    (m.settings.trace = true ∧
      ∃ cause s', cause.kind = .io ∧ m.step s = .failed ⟨cause, none⟩ s') := by
  obtain ⟨ready, _, _, _, hstep | ⟨cause, htrace, hkind, hstep⟩⟩ :=
    Machine.step_eq (m := m) hframes hi
  · refine .inl ?_
    rw [hstep]
    unfold Machine.execute Action.perform
    simp only [hop]
    simp only [Bind.bind, EStateM.bind, Action.pop, Activation.pop, State.focus, hstack]
    exact ⟨_, rfl, rfl⟩
  · exact .inr ⟨htrace, cause, ready, hkind, hstep⟩

end Steps

/-! ## The discipline of calls -/

/-- Two calls inside one another: the outer function passes its argument on to the inner one, which
adds one to it. -/
def Machine.relay : Machine where
  bytecode := .ofList
    [⟨"main", 0, #[.push (.int 3), .push (.int 10), .call "outer", .plain .ret]⟩,
      ⟨"outer", 1, #[.load 0, .call "inner", .plain .ret]⟩,
      ⟨"inner", 1, #[.load 0, .push (.int 1), .plain .add, .plain .ret]⟩]

/-- Calls and returns are matched, and activations are isolated from one another. If a call
succeeds, the last operands of the caller `c` are the arguments: the callee starts at its first
instruction, without operands and with the arguments in its slots in the order in which they were
pushed. As long as the callee has not returned, which counting calls and returns shows, the
activations below it are those that were there, with `c` at the instruction behind the call and
without the arguments; this holds also where a step fails. The return that ends the call adds its
value to the operands of `c` and changes nothing else; the only thing that can come in between is
that its trace cannot be written. A run that ends with a value leaves no activation. -/
theorem Machine.calls_isolated (m : Machine) :
    (∀ (s s₁ : State) (c : Activation) (fs : List Activation) (i : Instruction) (f : String),
      s.frames = c :: fs → c.blueprint.code[c.pc]? = some i → i.opcode = .call →
      i.operand = some (.name f) → m.step s = .next s₁ →
      ∃ callee base args c', m.bytecode.get? f = some callee ∧
        c.operands = base ++ args ∧ args.length = callee.params ∧
        c' = { c with pc := c.pc + 1, stack := base.reverse } ∧
        s₁.frames = ⟨callee, args, [], 0⟩ :: c' :: fs ∧
        ∀ is s' depth, m.Trace s₁ is s' → openCalls is = some depth →
          InCall callee (c' :: fs) depth s'.frames ∧
          (∀ fault left, m.step s' = .failed fault left →
            InCall callee (c' :: fs) depth left.frames) ∧
          (∀ j a v rest, depth = 0 → s'.instruction? = some j → j.opcode = .ret →
            s'.frames.head? = some a → a.stack = v :: rest →
            (∃ s'', m.step s' = .next s'' ∧
              s''.frames = { c' with stack := (base ++ [v]).reverse } :: fs) ∨
            (m.settings.trace = true ∧ ∃ cause left, cause.kind = .io ∧
              m.step s' = .failed ⟨cause, none⟩ left))) ∧
    (∀ fuel s₀ v s, m.run fuel s₀ = some (.ok v, s) → s.frames = []) := by
  constructor
  · intro s s₁ c fs i f hframes hi hop hname hstep
    obtain ⟨callee, base, args, hcallee, hoperands, hargs, hentered⟩ :=
      Machine.step_call hframes hi hop hname hstep
    refine ⟨callee, base, args, _, hcallee, hoperands, hargs, rfl, hentered, ?_⟩
    intro is s' depth htrace hopen
    -- Right after the call the callee is innermost, and the caller is below it.
    have hstart : InCall callee ({ c with pc := c.pc + 1, stack := base.reverse } :: fs)
        0 s₁.frames :=
      ⟨[], _, rfl, rfl, hentered⟩
    have hinside := htrace.inCall hstart hopen
    refine ⟨hinside, fun fault left hfailed => Machine.step_failed_inCall hinside hfailed, ?_⟩
    intro j a v rest hdepth hj hret hhead hstack
    -- With no call in progress inside it, the callee is the one that returns.
    have hframes' : s'.frames = a :: { c with pc := c.pc + 1, stack := base.reverse } :: fs :=
      (hdepth ▸ hinside).of_head hhead
    have hcode : a.blueprint.code[a.pc]? = some j := by
      unfold State.instruction? at hj
      rw [hframes'] at hj
      exact hj
    have hpushed : (base ++ [v]).reverse = v :: base.reverse := List.reverse_concat
    rw [hpushed]
    exact Machine.step_ret hframes' hcode hret hstack
  · intro fuel s₀ v s hrun
    rcases Machine.run_cases hrun with ⟨_, _, hresult, _⟩ | ⟨_, _, last, ended, _, _, hanswer, rfl⟩
    · cases hresult
    · cases hstep : m.step last with
      | next _ | failed _ _ =>
        rw [hstep] at hanswer
        cases hanswer
      | done v' ended' =>
        rw [hstep] at hanswer
        cases hanswer
        obtain ⟨_, _, _, _, hnone, _⟩ := Machine.executes_of_done hstep
        exact hnone

/-- The relay when its outer function is about to be called. -/
def Machine.relaying : State where
  frames := [⟨⟨"main", 0, #[.push (.int 3), .push (.int 10), .call "outer", .plain .ret]⟩, [],
    [.int 10, .int 3], 2⟩]
  heap := Heap.new 1

/-- The outer call of the relay returns eleven to a caller that still has its three. -/
theorem Machine.calls_isolated_relay :
    ∃ s₁ is s' s'', relay.step relaying = .next s₁ ∧ relay.Trace s₁ is s' ∧
      is.map Instruction.opcode = [.load, .call, .load, .push, .add, .ret] ∧
      openCalls is = some 0 ∧ relay.step s' = .next s'' ∧
      s''.frames.map Activation.operands = [[.int 3, .int 11]] := by
  -- The run itself, step by step.
  have hrun : ∃ s₁ is s' a, relay.step relaying = .next s₁ ∧ relay.Trace s₁ is s' ∧
      is.map Instruction.opcode = [.load, .call, .load, .push, .add, .ret] ∧
      openCalls is = some 0 ∧ s'.instruction? = some (.plain .ret) ∧ s'.frames.head? = some a ∧
      a.stack = [.int 11] :=
    ⟨_, _, _, _, rfl, .cons rfl rfl (.cons rfl rfl (.cons rfl rfl (.cons rfl rfl (.cons rfl rfl
      (.cons rfl rfl (.nil _)))))), rfl, rfl, rfl, rfl, rfl⟩
  obtain ⟨s₁, is, s', a, hstep, htrace, hopcodes, hopen, hret, hhead, hstack⟩ := hrun
  obtain ⟨callee, base, args, c', hcallee, hoperands, hargs, hc', _, hlater⟩ :=
    (calls_isolated relay).1 relaying s₁ _ [] (.call "outer") "outer" rfl rfl rfl rfl hstep
  -- One operand of the caller is the argument, and the other one stays.
  have hbase : [Value.int 3] = base := by
    have hsplit : [Value.int 3] ++ [Value.int 10] = base ++ args := hoperands
    cases hcallee
    exact (List.append_inj' hsplit hargs.symm).1
  have hreturned := (hlater is s' 0 htrace hopen).2.2 _ a _ [] rfl hret rfl hhead hstack
  rcases hreturned with ⟨s'', hnext, hframes⟩ | ⟨htraced, _⟩
  · refine ⟨s₁, is, s', s'', hstep, htrace, hopcodes, hopen, hnext, ?_⟩
    rw [hframes, ← hbase]
    rfl
  · cases htraced

end RecordMachine
