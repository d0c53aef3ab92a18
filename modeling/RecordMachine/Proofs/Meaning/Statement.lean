import RecordMachine.Proofs.Meaning.Expression

/-!
# Code of statements does what statements mean

A statement either ends, and the machine stands behind its code with slots that agree with the new
environment, or returns, and the machine stands at a return with the value on top (`Exit.Reached`).
`Carries` says that a piece of code does this for an evaluation. Loops are dealt with once
(`simulates_rounds`): every round but the last ends with a jump back, which pays for the unit of
fuel that the round uses up. Then the code of every statement carries it out (`StmtCode.carries`),
by induction on the shape of the code.
-/

namespace RecordMachine

/-- Where the machine stands after the exit `exit` of a piece of code that the activation `a` was
in, above the activations `rest`, if the piece ends at `pos` and `scope` is visible there. -/
def Exit.Reached (a : Activation) (rest : List Activation) (pos : Nat) (scope : Scope)
    (exit : Exit) (w : World) (s : State) : Prop :=
  match exit with
  | .normal env =>
    ∃ slots, Agrees scope env slots ∧ s.At ({ a with pc := pos, slots } :: rest) w
  | .returned v =>
    ∃ b : Activation, b.stack = v :: a.stack ∧ b.blueprint.code[b.pc]? = some (.plain .ret) ∧
      s.At (b :: rest) w

/-- The code `c`, placed at `base` where `scope` is visible, does what `exec` says while `depth`
functions are active. It ends at `pos`, where `scope'` is visible. -/
def Carries (m : Machine) (depth fuel base : Nat) (scope : Scope) (c : Code)
    (exec : Environment → Eval Exit) (pos : Nat) (scope' : Scope) : Prop :=
  ∀ ⦃env : Environment⦄ ⦃a : Activation⦄ ⦃rest : List Activation⦄ ⦃w : World⦄ ⦃s : State⦄,
    s.At (a :: rest) w → rest.length + 1 = depth → a.pc = base →
    Placed a.blueprint.code base c → Agrees scope env a.slots →
    Simulates m fuel s (exec env w) (Exit.Reached a rest pos scope')

namespace Exit.Reached

variable {a : Activation} {rest : List Activation} {pos : Nat} {scope scope' : Scope} {exit : Exit}
  {w : World} {s : State}

/-- Only the visible variables matter for where an exit leads. -/
theorem of_bindings (h : Exit.Reached a rest pos scope exit w s)
    (heq : scope'.bindings = scope.bindings) : Exit.Reached a rest pos scope' exit w s := by
  cases exit with
  | normal env =>
    obtain ⟨slots, hagrees, hs⟩ := h
    exact ⟨slots, hagrees.of_bindings heq, hs⟩
  | returned v => exact h

/-- At the end of a block its variables are gone; a return is not affected. -/
theorem closing (h : Exit.Reached a rest pos scope' exit w s) (hord : scope.Orderly)
    (hgrows : scope.enter.Grows scope') {count : Nat} (hcount : scope.bindings.length = count) :
    Exit.Reached a rest pos scope'.leave (exit.closing count) w s := by
  cases exit with
  | normal env =>
    obtain ⟨slots, hagrees, hs⟩ := h
    exact ⟨slots, hagrees.closing hord hgrows hcount, hs⟩
  | returned v => exact h

end Exit.Reached

section Moves

variable {m : Machine} {fuel : Nat} {s : State} {a : Activation} {rest : List Activation}
  {pos pos' : Nat} {scope : Scope}

/-- Where the machine goes from the end of a piece of code to another place, the piece ends
there. -/
theorem Simulates.moves {outcome : Option (Except Mishap Exit × World)}
    (h : Simulates m fuel s outcome (Exit.Reached a rest pos scope))
    (hgoes : ∀ (slots : List Value) (w : World) (s' : State),
      s'.At ({ a with pc := pos, slots } :: rest) w →
        m.Goes s' ({ a with pc := pos', slots } :: rest) w) :
    Simulates m fuel s outcome (Exit.Reached a rest pos' scope) := by
  refine h.extend ?_
  intro exit w s₁ hreached
  cases exit with
  | returned v => exact .pure hreached
  | normal env =>
    obtain ⟨slots, hagrees, hs₁⟩ := hreached
    refine (hgoes slots w s₁ hs₁).simulates ?_
    intro s₂ hs₂
    exact .pure ⟨slots, hagrees, hs₂⟩

/-- A landing place is passed in one step. -/
theorem Simulates.lands {outcome : Option (Except Mishap Exit × World)}
    (htrace : m.settings.trace = false)
    (h : Simulates m fuel s outcome (Exit.Reached a rest pos scope))
    (hi : a.blueprint.code[pos]? = some (.plain .nop)) :
    Simulates m fuel s outcome (Exit.Reached a rest (pos + 1) scope) :=
  h.moves fun _ _ _ hs => goes_nop htrace hs hi

/-- The rounds of a loop. If one round ends where the loop does, or else at a step that starts
another round, the loop ends there too, and has as many steps as it has fuel if it does not end. -/
theorem simulates_rounds {round : Environment → Eval Round}
    (start : Environment → World → State → Prop) (post : Exit → World → State → Prop)
    (hround : ∀ env w s, start env w s → Simulates m fuel s (round env w) fun r w' s' =>
      match r with
      | .again env' => ∃ s'', m.step s' = .next s'' ∧ start env' w' s''
      | .stop exit => post exit w' s') :
    ∀ {k : Nat} {env : Environment} {w : World} {s : State}, k ≤ fuel → start env w s →
      Simulates m k s (Eval.rounds round k env w) post := by
  intro k
  induction k with
  | zero =>
    intro env w s _ _
    rfl
  | succ k ih =>
    intro env w s hk hstart
    rw [Eval.rounds]
    -- Every round evaluates with all the fuel, however many rounds are left.
    refine .bind ((hround env w s hstart).of_le hk) ?_
    intro r w₁ s₁ hr
    cases r with
    | stop exit => exact .pure hr
    | again env' =>
      obtain ⟨s₂, hstep, hstart'⟩ := hr
      exact .after_step hstep (ih (by omega) hstart')

end Moves

/-! ## Assignments -/

section Forms

variable {m : Machine} {p : Program} {call : String → List Value → Eval Value} {depth fuel : Nat}
  {function : String} {base : Nat} {scope scope' : Scope}

/-- Storing the value on top of the stack into a variable or a field. The object is fetched when the
value is there already. -/
theorem simulates_assignCode (htrace : m.settings.trace = false) (hord : scope.Orderly)
    {name : String} {fields : List String} {slot : Nat} (hslot : scope.resolve? name = some slot)
    {env : Environment} {a : Activation} {rest : List Activation} {w : World} {s : State}
    {v : Value} {st : List Value} (hs : s.At (a :: rest) w) (hst : a.stack = v :: st)
    (hplaced : Placed a.blueprint.code a.pc (assignCode slot fields))
    (hagrees : Agrees scope env a.slots) :
    Simulates m fuel s
      ((match fields.getLast? with
        | none => do return Exit.normal (← env.write name v)
        | some last => do
          let target ← env.follow (name :: fields.dropLast)
          Eval.setField target last v
          return Exit.normal env) w)
      (Exit.Reached { a with stack := st } rest (a.pc + (assignCode slot fields).length)
        scope) := by
  unfold assignCode at hplaced ⊢
  generalize fields.getLast? = last? at hplaced ⊢
  cases last? with
  | none =>
    obtain ⟨env', henv', hagrees'⟩ :=
      Agrees.assign (v := v) (a := a.advance 1 st) hagrees hord hslot
    simp only [Environment.write, henv']
    refine (goes_store htrace hs hst hplaced.head).simulates ?_
    intro s₁ hs₁
    rw [Activation.store_eq] at hs₁
    exact .pure ⟨_, hagrees', hs₁⟩
  | some last =>
    obtain ⟨hwalk, hset⟩ := hplaced.tail.append
    rw [List.length_map, Nat.add_assoc] at hset
    rw [Environment.follow]
    -- The object is fetched behind the value, by its variable and all fields but the last.
    have hobject : Simulates m fuel s ((env.read name >>= (Eval.walk · fields.dropLast)) w)
        fun target w' s' =>
          s'.At (a.advance (1 + fields.dropLast.length) (target :: v :: st) :: rest) w' := by
      refine .bind (simulates_load htrace hs hagrees hslot hplaced.head) ?_
      intro x w₁ s₁ hs₁
      refine (simulates_walk htrace rfl hwalk hs₁).imp ?_
      intro target w₂ s₂ hs₂
      rw [Activation.advance_advance, hst] at hs₂
      exact hs₂
    refine .bind hobject ?_
    intro target w₂ s₂ hs₂
    refine (goes_swap htrace hs₂ rfl hset.head).simulates ?_
    intro s₃ hs₃
    rw [Activation.advance_advance] at hs₃
    refine .bind (simulates_setField htrace hs₃ rfl hset.tail.head) ?_
    intro _ w₄ s₄ hs₄
    refine .pure ⟨a.slots, hagrees, ?_⟩
    have hend : (Instruction.load slot :: (fields.dropLast.map .getField
          ++ [.plain .swap, .setField last])).length = 1 + fields.dropLast.length + 1 + 1 := by
      simp only [List.length_cons, List.length_append, List.length_map, List.length_nil]
      omega
    rw [Activation.advance_advance] at hs₄
    rw [hend]
    exact hs₄

/-! ## Loops -/

/-- A loop with a condition, from its condition and its body. -/
theorem Carries.whileLoop (hm : Runs m p) (hcalls : SoundCalls m p call depth fuel)
    (hord : scope.Orderly) {cond : Expr} {test c : Code} {exec : Environment → Eval Exit}
    (hcond : ExprCode (p.context function) scope cond test) (hgrows : scope.enter.Grows scope')
    (hbody : Carries m depth fuel (base + test.length + 1) scope.enter c exec
      (base + test.length + 1 + c.length) scope') :
    Carries m depth fuel base scope (whileCode base test c)
      (fun env =>
        let round := fun env => do
          if ← Eval.condition (← cond.eval (p.services call fuel) env) then
            match (← exec env).closing env.length with
            | .normal env => return .again env
            | .returned v => return .stop (.returned v)
          else return .stop (.normal env)
        Eval.rounds round fuel env)
      (base + (whileCode base test c).length) scope'.leave := by
  intro env a rest w s hs hdepth hpc hplaced hagrees
  have hend : base + (whileCode base test c).length
      = base + test.length + 1 + c.length + 1 + 1 := by
    rw [length_whileCode]
    omega
  rw [hend]
  obtain ⟨htest, hjump⟩ := hplaced.append
  obtain ⟨hcode, hback⟩ := hjump.tail.append
  have hsame : scope'.leave.bindings = scope.bindings := Scope.bindings_leave hord hgrows
  refine Simulates.lands hm.silent ?_ hback.tail.head
  -- The invariant of the loop: at its first index, the slots hold what the environment says.
  refine simulates_rounds (fun env => Exit.Reached a rest base scope (.normal env)) _ ?_
    (Nat.le_refl _) ⟨a.slots, hagrees, ?_⟩
  · rintro env w s ⟨slots, hagrees, hs⟩
    refine .bind (hcond.simulates hm hs (hdepth ▸ hcalls) htest hagrees) ?_
    intro v w₁ s₁ hs₁
    refine .bind (simulates_jumpIfFalse hm.silent hs₁ rfl hjump.head) ?_
    intro b w₂ s₂ hs₂
    cases b with
    | false => exact .pure ⟨slots, hagrees.of_bindings hsame, hs₂⟩
    | true =>
      rw [if_pos rfl, Activation.advance_advance] at hs₂
      refine .bind (hbody hs₂ hdepth rfl hcode hagrees) ?_
      intro exit w₃ s₃ hexit
      -- What the body declared is gone before the next round.
      have hclosed := hexit.closing hord hgrows hagrees.length_eq
      cases exit with
      | returned v => exact .pure hclosed
      | normal env' =>
        obtain ⟨slots', hagrees', hs₃⟩ := hclosed
        obtain ⟨s₄, hstep, hs₄⟩ := goes_jump hm.silent hs₃ hback.head
        exact .pure ⟨s₄, hstep, slots', hagrees'.of_bindings hsame.symm, hs₄⟩
  · rw [← hpc]
    exact hs

/-- The test of a counting loop compares as the loop means it. -/
theorem Direction.perform_test (direction : Direction) :
    Action.perform (.plain direction.test) = (do Action.binary direction.within; return .next) := by
  cases direction <;> rfl

/-- The first value of the variable of a counting loop goes where lowering has put the variable. -/
theorem Agrees.counter {outer inner : Scope} {var : String} {slot : Nat} {env : Environment}
    {a : Activation} {v : Value} (hagrees : Agrees outer env a.slots) (hord : outer.Orderly)
    (hcounter : outer.counter var = (slot, inner)) :
    Agrees inner ((env.assign? var v).getD ((var, v) :: env)) (a.store slot v).slots := by
  unfold Scope.counter at hcounter
  split at hcounter
  · next hfound =>
    cases hcounter
    obtain ⟨env', henv', hagrees'⟩ := hagrees.assign (v := v) hord hfound
    rw [henv']
    exact hagrees'
  · next hfree =>
    cases hcounter
    rw [hagrees.assign?_eq_none hfree]
    exact hagrees.declare hord

/-- Moving the variable of a counting loop, up to the jump that starts the next round. -/
theorem simulates_advance (htrace : m.settings.trace = false) (hord : scope.Orderly)
    {direction : Direction} {var : String} {slot again : Nat}
    (hslot : scope.resolve? var = some slot)
    {env : Environment} {a : Activation} {rest : List Activation} {w : World} {s : State}
    (hs : s.At (a :: rest) w)
    (hplaced : Placed a.blueprint.code a.pc (direction.advanceCode slot again))
    (hagrees : Agrees scope env a.slots) :
    Simulates m fuel s
      ((do
        let next ← Eval.lift (direction.next (← env.read var))
        return Round.again (← env.write var next) : Eval Round) w)
      fun r w' s' => ∃ env' s'', r = .again env' ∧ m.step s' = .next s'' ∧
        Exit.Reached a rest again scope (.normal env') w' s'' := by
  refine .bind (simulates_load htrace hs hagrees hslot hplaced.head) ?_
  intro x w₁ s₁ hs₁
  refine (goes_push htrace hs₁ hplaced.tail.head).simulates ?_
  intro s₂ hs₂
  -- Up and down the counter is moved by different instructions.
  have hnext : ∃ f : Value → Value → Except Cause Value,
      Action.perform (.plain direction.advance) = (do Action.binary f; return .next) ∧
        direction.next x = f x (.int 1) := by
    cases direction with
    | upTo => exact ⟨_, rfl, rfl⟩
    | downTo => exact ⟨_, rfl, rfl⟩
  obtain ⟨f, hperform, hvalue⟩ := hnext
  rw [hvalue]
  refine .bind (simulates_binary htrace hs₂ rfl hplaced.tail.tail.head hperform) ?_
  intro next w₃ s₃ hs₃
  rw [Activation.advance_advance, Activation.advance_advance] at hs₃
  obtain ⟨env', henv', hagrees'⟩ :=
    Agrees.assign (v := next) (a := (a.advance (1 + (1 + 1)) (next :: a.stack)).advance 1 a.stack)
      hagrees hord hslot
  simp only [Environment.write, henv']
  refine (goes_store htrace hs₃ rfl hplaced.tail.tail.tail.head).simulates ?_
  intro s₄ hs₄
  rw [Activation.store_eq] at hs₄
  obtain ⟨s₅, hstep, hs₅⟩ := goes_jump htrace hs₄ hplaced.tail.tail.tail.tail.head
  exact .pure ⟨env', s₅, rfl, hstep, _, hagrees', hs₅⟩

/-- One round of a counting loop: it ends behind its code if the bound is passed, with a return of
its body, or at the jump that starts the next round. -/
theorem simulates_forRound (hm : Runs m p) {inner : Scope} (hinner : inner.Orderly) {var : String}
    {stop : Expr} {direction : Direction} {last c : Code} {slot again landing : Nat}
    {exec : Environment → Eval Exit} (hslot : inner.resolve? var = some slot)
    (hstop : ExprCode (p.context function) inner stop last) (hgrows : inner.enter.Grows scope')
    (hbody : Carries m depth fuel (again + (last.length + 2) + 1) inner.enter c exec
      (again + (last.length + 2) + 1 + c.length) scope')
    {a : Activation} {rest : List Activation} (hcalls : SoundCalls m p call depth fuel)
    (hdepth : rest.length + 1 = depth)
    (hplaced : Placed a.blueprint.code again (direction.testCode slot last ++
      .jumpIfFalse landing :: (c ++ direction.advanceCode slot again ++ [.plain .nop])))
    {env : Environment} {w : World} {s : State}
    (hstart : Exit.Reached a rest again inner (.normal env) w s) :
    Simulates m fuel s
      ((do
        let counter ← env.read var
        let bound ← stop.eval (p.services call fuel) env
        if ← Eval.condition (← Eval.lift (direction.within counter bound)) then
          match (← exec env).closing env.length with
          | .normal env => do
            let next ← Eval.lift (direction.next (← env.read var))
            return .again (← env.write var next)
          | .returned v => return .stop (.returned v)
        else return .stop (.normal env) : Eval Round) w)
      fun r w' s' =>
        match r with
        | .again env' =>
          ∃ s'', m.step s' = .next s'' ∧ Exit.Reached a rest again inner (.normal env') w' s''
        | .stop exit => Exit.Reached a rest landing scope'.leave exit w' s' := by
  have hsame : scope'.leave.bindings = inner.bindings := Scope.bindings_leave hinner hgrows
  obtain ⟨slots, hagrees, hs⟩ := hstart
  -- The parts of the code, each where it stands.
  obtain ⟨htest, hplaced⟩ := hplaced.append
  obtain ⟨hlast, hcompare⟩ := htest.tail.append
  rw [Direction.length_testCode] at hplaced
  obtain ⟨hcode, hadvance⟩ := hplaced.tail.append.1.append
  refine .bind (simulates_load hm.silent hs hagrees hslot htest.head) ?_
  intro counter w₁ s₁ hs₁
  refine .bind (hstop.simulates hm hs₁ (hdepth ▸ hcalls) hlast hagrees) ?_
  intro bound w₂ s₂ hs₂
  refine .bind (simulates_binary hm.silent hs₂ rfl hcompare.head direction.perform_test) ?_
  intro within w₃ s₃ hs₃
  rw [Activation.advance_advance, Activation.advance_advance,
    show 1 + (last.length + 1) = last.length + 2 by omega] at hs₃
  refine .bind (simulates_jumpIfFalse hm.silent hs₃ rfl hplaced.head) ?_
  intro b w₄ s₄ hs₄
  cases b with
  | false => exact .pure ⟨slots, hagrees.of_bindings hsame, hs₄⟩
  | true =>
    rw [if_pos rfl, Activation.advance_advance] at hs₄
    refine .bind (hbody hs₄ hdepth rfl hcode hagrees) ?_
    intro exit w₅ s₅ hexit
    have hclosed := hexit.closing hinner hgrows hagrees.length_eq
    cases exit with
    | returned v => exact .pure hclosed
    | normal env' =>
      obtain ⟨slots', hagrees', hs₅⟩ := hclosed
      refine (simulates_advance hm.silent hinner hslot hs₅ hadvance
        (hagrees'.of_bindings hsame.symm)).imp ?_
      rintro r w₆ s₆ ⟨env'', s₇, rfl, hstep, hreached⟩
      exact ⟨s₇, hstep, hreached⟩

/-- A counting loop, from its two bounds and its body. -/
theorem Carries.forLoop (hm : Runs m p) (hcalls : SoundCalls m p call depth fuel)
    (hord : scope.Orderly) {var : String} {start stop : Expr} {direction : Direction}
    {first last c : Code} {slot again : Nat} {inner : Scope} {exec : Environment → Eval Exit}
    (hstart : ExprCode (p.context function) scope.enter start first)
    (hcounter : scope.enter.counter var = (slot, inner))
    (hstop : ExprCode (p.context function) inner stop last)
    (hagain : again = base + first.length + 1) (hgrows : inner.enter.Grows scope')
    (hbody : Carries m depth fuel (again + (last.length + 2) + 1) inner.enter c exec
      (again + (last.length + 2) + 1 + c.length) scope') :
    Carries m depth fuel base scope (forCode direction slot again first last c)
      (fun env => do
        let first ← start.eval (p.services call fuel) env
        let inner := (env.assign? var first).getD ((var, first) :: env)
        let round := fun env => do
          let counter ← env.read var
          let bound ← stop.eval (p.services call fuel) env
          if ← Eval.condition (← Eval.lift (direction.within counter bound)) then
            match (← exec env).closing env.length with
            | .normal env => do
              let next ← Eval.lift (direction.next (← env.read var))
              return .again (← env.write var next)
            | .returned v => return .stop (.returned v)
          else return .stop (.normal env)
        return (← Eval.rounds round fuel inner).closing env.length)
      (base + (forCode direction slot again first last c).length) scope'.leave.leave := by
  intro env a rest w s hs hdepth hpc hplaced hagrees
  have hend : base + (forCode direction slot again first last c).length
      = again + (last.length + 2) + 1 + c.length + 5 + 1 := by
    rw [length_forCode]
    omega
  rw [hend]
  subst hpc
  have hinner : inner.Orderly := hord.enter.counter hcounter
  have hslot : inner.resolve? var = some slot := Scope.resolve?_counter hcounter
  obtain ⟨hfirst, hplaced⟩ := hplaced.append
  have hround := hplaced.tail
  rw [← hagain] at hround
  have hnop : a.blueprint.code[again + (last.length + 2) + 1 + c.length + 5]?
      = some (.plain .nop) := by
    have hlast := hround.append.2.tail.append.2.head
    rw [List.length_append, Direction.length_testCode, Direction.length_advanceCode,
      ← Nat.add_assoc] at hlast
    exact hlast
  refine Simulates.lands hm.silent ?_ hnop
  refine .bind (hstart.simulates hm hs (hdepth ▸ hcalls) hfirst hagrees) ?_
  intro v w₁ s₁ hs₁
  refine (goes_store hm.silent hs₁ rfl hplaced.head).simulates ?_
  intro s₂ hs₂
  rw [Activation.store_eq, Activation.advance_advance] at hs₂
  have houter : Agrees scope.enter env (a.advance (first.length + 1) a.stack).slots := hagrees
  -- The counter has got its first value, in a slot of its own or in that of a visible variable.
  have hcounted : Agrees inner ((env.assign? var v).getD ((var, v) :: env)) _ :=
    houter.counter hord.enter hcounter
  refine .bind (simulates_rounds (fun env => Exit.Reached a rest again inner (.normal env))
    (Exit.Reached a rest (again + (last.length + 2) + 1 + c.length + 5) scope'.leave) ?_
    (Nat.le_refl _) ⟨_, hcounted, ?_⟩) ?_
  · intro env w s hreached
    exact simulates_forRound hm hinner hslot hstop hgrows hbody hcalls hdepth hround hreached
  · rw [hagain]
    exact hs₂
  · intro exit w₃ s₃ hexit
    -- The loop is a block around its counter.
    have hblock : scope.enter.Grows scope'.leave :=
      (Scope.Grows.counter hcounter).trans (.of_block hinner hgrows)
    exact .pure (hexit.closing hord hblock hagrees.length_eq)

/-! ## Branches -/

/-- A branch that ends goes over what follows it to the place where all branches meet. -/
theorem Simulates.leavesBranch (htrace : m.settings.trace = false) {ctx : Context} {chain : Chain}
    {pos landing : Nat} {others : Code} {outcome : Option (Except Mishap Exit × World)}
    {a : Activation} {rest : List Activation} {s : State}
    (hothers : ChainCode ctx (pos + (chain.exitCode landing).length) scope landing chain others
      scope')
    (hlanding : landing = pos + (chain.exitCode landing).length + others.length)
    (hplaced : Placed a.blueprint.code pos (chain.exitCode landing))
    (h : Simulates m fuel s outcome (Exit.Reached a rest pos scope)) :
    Simulates m fuel s outcome (Exit.Reached a rest landing scope) := by
  unfold Chain.exitCode at hplaced hlanding
  split at hplaced
  · -- Nothing follows, so the branch ends at the landing place already.
    next hdone =>
    rw [if_pos hdone] at hlanding
    cases hothers with
    | done =>
      obtain rfl : landing = pos := hlanding
      exact h
    | otherwise hbody => cases hdone
    | branch hcond hbody hnext hrest => cases hdone
  · exact h.moves fun _ _ _ hs => goes_jump htrace hs hplaced.head

end Forms

/-! ## Statements -/

section Statements

variable {m : Machine} {p : Program} {call : String → List Value → Eval Value} {depth fuel : Nat}
  {function : String}

mutual

/-- The code of a statement carries it out. -/
theorem StmtCode.carries (hm : Runs m p) (hcalls : SoundCalls m p call depth fuel) :
    ∀ {base : Nat} {scope : Scope} {stmt : Stmt} {c : Code} {scope' : Scope},
      StmtCode (p.context function) base scope stmt c scope' → scope.Orderly →
        Carries m depth fuel base scope c (fun env => stmt.exec (p.services call fuel) fuel env)
          (base + c.length) scope'
  | _, _, _, _, _, .declare hinit, hord => by
    intro env a rest w s hs hdepth hpc hplaced hagrees
    subst hpc
    obtain ⟨hvalue, hstore⟩ := hplaced.append
    simp only [Stmt.exec]
    refine .bind (hinit.simulates hm hs (hdepth ▸ hcalls) hvalue hagrees) ?_
    intro v w₁ s₁ hs₁
    refine (goes_store hm.silent hs₁ rfl hstore.head).simulates ?_
    intro s₂ hs₂
    rw [Activation.store_eq, Activation.advance_advance] at hs₂
    rw [List.length_append]
    refine .pure ⟨_, ?_, hs₂⟩
    exact Agrees.declare hagrees hord
  | _, _, _, _, _, .assign hvalue hslot, hord => by
    intro env a rest w s hs hdepth hpc hplaced hagrees
    subst hpc
    obtain ⟨hcode, hassign⟩ := hplaced.append
    simp only [Stmt.exec]
    refine .bind (hvalue.simulates hm hs (hdepth ▸ hcalls) hcode hagrees) ?_
    intro v w₁ s₁ hs₁
    rw [List.length_append, ← Nat.add_assoc]
    exact simulates_assignCode hm.silent hord hslot hs₁ rfl hassign hagrees
  | _, _, _, _, _, .ifChain hchain, hord => by
    intro env a rest w s hs hdepth hpc hplaced hagrees
    obtain ⟨hcode, hnop⟩ := hplaced.append
    simp only [Stmt.exec]
    rw [List.length_append, ← Nat.add_assoc]
    exact (hchain.carries hm hcalls hord rfl hs hdepth hpc hcode hagrees).lands hm.silent hnop.head
  | _, _, _, _, _, .whileLoop hcond hbody, hord => by
    intro env a rest w s hs hdepth hpc hplaced hagrees
    have hgrows := (hbody.grows hord.enter).1
    simp only [Stmt.exec]
    exact Carries.whileLoop hm hcalls hord hcond hgrows (hbody.carries hm hcalls hord.enter) hs
      hdepth hpc hplaced hagrees
  | _, _, _, _, _, .forLoop hstart hcounter hstop hagain hbody, hord => by
    intro env a rest w s hs hdepth hpc hplaced hagrees
    have hinner := (hord.enter.counter hcounter).enter
    have hgrows := (hbody.grows hinner).1
    simp only [Stmt.exec]
    exact Carries.forLoop hm hcalls hord hstart hcounter hstop hagain hgrows
      (hbody.carries hm hcalls hinner) hs hdepth hpc hplaced hagrees
  | _, _, _, _, _, .retNil, hord => by
    intro env a rest w s hs hdepth hpc hplaced hagrees
    subst hpc
    simp only [Stmt.exec]
    refine (goes_push hm.silent hs hplaced.head).simulates ?_
    intro s₁ hs₁
    exact .pure ⟨_, rfl, hplaced.tail.head, hs₁⟩
  | _, _, _, _, _, .ret he, hord => by
    intro env a rest w s hs hdepth hpc hplaced hagrees
    subst hpc
    obtain ⟨hvalue, hret⟩ := hplaced.append
    simp only [Stmt.exec]
    refine .bind (he.simulates hm hs (hdepth ▸ hcalls) hvalue hagrees) ?_
    intro v w₁ s₁ hs₁
    exact .pure ⟨_, rfl, hret.head, hs₁⟩
  | _, _, _, _, _, .delete hslot, hord => by
    intro env a rest w s hs hdepth hpc hplaced hagrees
    subst hpc
    simp only [Stmt.exec]
    refine .bind (simulates_load hm.silent hs hagrees hslot hplaced.head) ?_
    intro v w₁ s₁ hs₁
    refine .bind (simulates_free hm.silent hs₁ rfl hplaced.tail.head) ?_
    intro _ w₂ s₂ hs₂
    rw [Activation.advance_advance] at hs₂
    refine (goes_push hm.silent hs₂ hplaced.tail.tail.head).simulates ?_
    intro s₃ hs₃
    rw [Activation.advance_advance] at hs₃
    -- The last instruction is the assignment of nil to the variable.
    have hassign : Placed _ _ (assignCode _ []) := hplaced.tail.tail.tail
    exact simulates_assignCode hm.silent hord hslot hs₃ rfl hassign hagrees
  | _, _, _, _, _, .call hcall, hord => by
    intro env a rest w s hs hdepth hpc hplaced hagrees
    subst hpc
    obtain ⟨hvalue, hpop⟩ := hplaced.append
    simp only [Stmt.exec]
    refine .bind (hcall.simulates hm hs (hdepth ▸ hcalls) hvalue hagrees) ?_
    intro v w₁ s₁ hs₁
    refine (goes_pop hm.silent hs₁ rfl hpop.head).simulates ?_
    intro s₂ hs₂
    rw [Activation.advance_advance] at hs₂
    rw [List.length_append]
    exact .pure ⟨a.slots, hagrees, hs₂⟩
termination_by structural _ _ _ _ _ h => h

/-- The code of statements that follow each other carries them out, up to one that returns. -/
theorem SequenceCode.carries (hm : Runs m p) (hcalls : SoundCalls m p call depth fuel) :
    ∀ {base : Nat} {scope : Scope} {body : List Stmt} {c : Code} {scope' : Scope},
      SequenceCode (p.context function) base scope body c scope' → scope.Orderly →
        Carries m depth fuel base scope c
          (fun env => Stmt.execAll (p.services call fuel) fuel env body) (base + c.length) scope'
  | _, _, _, _, _, .nil, hord => by
    intro env a rest w s hs hdepth hpc hplaced hagrees
    subst hpc
    simp only [Stmt.execAll]
    exact .pure ⟨a.slots, hagrees, hs⟩
  | _, _, _, _, _, .cons hstmt hrest, hord => by
    intro env a rest w s hs hdepth hpc hplaced hagrees
    obtain ⟨hfirst, hothers⟩ := hplaced.append
    simp only [Stmt.execAll]
    refine .bind (hstmt.carries hm hcalls hord hs hdepth hpc hfirst hagrees) ?_
    intro exit w₁ s₁ hexit
    -- A statement that returns leaves the others out.
    cases exit with
    | returned v => exact .pure hexit
    | normal env' =>
      obtain ⟨slots, hagrees', hs₁⟩ := hexit
      -- The others start in the scope that the first one has left.
      have hgoes := hrest.carries hm hcalls (hstmt.grows hord).2 hs₁ hdepth rfl hothers hagrees'
      rw [List.length_append, ← Nat.add_assoc]
      exact hgoes
termination_by structural _ _ _ _ _ h => h

/-- The code of branches carries out the first one whose condition holds. -/
theorem ChainCode.carries (hm : Runs m p) (hcalls : SoundCalls m p call depth fuel) :
    ∀ {base : Nat} {scope : Scope} {landing : Nat} {chain : Chain} {c : Code} {scope' : Scope},
      ChainCode (p.context function) base scope landing chain c scope' → scope.Orderly →
        landing = base + c.length →
        Carries m depth fuel base scope c
          (fun env => Chain.exec (p.services call fuel) fuel env chain) landing scope'
  | _, _, _, _, _, _, .done, hord, hlanding => by
    intro env a rest w s hs hdepth hpc hplaced hagrees
    subst hpc hlanding
    simp only [Chain.exec]
    exact .pure ⟨a.slots, hagrees, hs⟩
  | _, _, _, _, _, _, .otherwise hbody, hord, hlanding => by
    intro env a rest w s hs hdepth hpc hplaced hagrees
    subst hlanding
    simp only [Chain.exec]
    refine .bind (hbody.carries hm hcalls hord.enter hs hdepth hpc hplaced hagrees) ?_
    intro exit w₁ s₁ hexit
    exact .pure (hexit.closing hord (hbody.grows hord.enter).1 hagrees.length_eq)
  | _, _, _, _, _, _, .branch hcond hbody hnext hrest, hord, hlanding => by
    have hgrows := (hbody.grows hord.enter).1
    have hblock := Scope.Orderly.of_block hord hgrows
    have hbranch := hbody.carries hm hcalls hord.enter
    have hfollowing := hrest.carries hm hcalls hblock
    intro env a rest w s hs hdepth hpc hplaced hagrees
    subst hpc hnext
    obtain ⟨htest, hplaced⟩ := hplaced.append
    obtain ⟨hplaced', hothers⟩ := hplaced.tail.append
    obtain ⟨hcode, hleave⟩ := hplaced'.append
    rw [List.length_append, ← Nat.add_assoc] at hothers
    have hmeet := hlanding
    simp only [List.length_append, List.length_cons] at hmeet
    simp only [Chain.exec]
    refine .bind (hcond.simulates hm hs (hdepth ▸ hcalls) htest hagrees) ?_
    intro v w₁ s₁ hs₁
    refine .bind (simulates_jumpIfFalse hm.silent hs₁ rfl hplaced.head) ?_
    intro b w₂ s₂ hs₂
    cases b with
    | true =>
      rw [if_pos rfl, Activation.advance_advance] at hs₂
      refine .bind (hbranch hs₂ hdepth rfl hcode hagrees) ?_
      intro exit w₃ s₃ hexit
      -- The branch was taken; what follows it is jumped over.
      have hends : Simulates m fuel s₃ ((pure (exit.closing env.length) : Eval Exit) w₃) _ :=
        .pure (hexit.closing hord hgrows hagrees.length_eq)
      refine (hends.leavesBranch hm.silent hrest (by omega) hleave).imp ?_
      intro _ w₄ s₄ hreached
      exact hreached.of_bindings (hrest.bindings_eq hblock)
    | false =>
      have hsame := Scope.bindings_leave hord hgrows
      have hgoes := hfollowing (by omega) hs₂ hdepth rfl hothers (hagrees.of_bindings hsame)
      exact hgoes
termination_by structural _ _ _ _ _ _ h => h

end

end Statements

end RecordMachine
