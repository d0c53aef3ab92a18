import RecordMachine.Proofs.Lowering.Blueprints
import RecordMachine.Proofs.Meaning.Primitives
import RecordMachine.Proofs.Meaning.Variables

/-!
# Code of expressions does what expressions mean

The code of an expression, placed where the next instruction is, simulates the evaluation of the
expression and pushes its value (`ExprCode.simulates`). The proof is by induction on the shape of
the code. Calls are assumed to work (`SoundCalls`): that they do is shown by induction on the fuel,
once statements are dealt with. Every construction uses up one unit of fuel, and the machine makes
one step more for it, the allocation.
-/

namespace RecordMachine

/-- What lowering a function of a program knows about names. -/
def Program.context (p : Program) (function : String) : Context :=
  ⟨.ofProgram p, p.types, function⟩

/-- The machine runs the compiled program, and does not trace. -/
structure Runs (m : Machine) (p : Program) : Prop where
  lowered : p.lower (.ofProgram p) = .ok m.bytecode
  silent : m.settings.trace = false

/-- What lowering knows of a record type is its last declaration in the program. -/
theorem Program.record?_of_layout {p : Program} {function type : String} {names : List String}
    {fields : List VarDecl} (h : (p.context function).layout type = .ok (names, fields)) :
    ∃ decl, p.record? type = some decl ∧ decl.fields = fields ∧
      fields.map VarDecl.name = names := by
  obtain ⟨decl, hnames, hdecl, hfields⟩ := Context.layout_cases h
  have hrecord : p.record? type = some decl := hdecl
  rw [show (p.context function).table = .ofProgram p from rfl, TypeTable.fields?_ofProgram,
    hrecord] at hnames
  exact ⟨decl, hrecord, hfields, hfields ▸ Option.some.inj hnames⟩

/-- A call instruction simulates `call`, while `depth` functions are active. -/
def SoundCalls (m : Machine) (p : Program) (call : String → List Value → Eval Value)
    (depth fuel : Nat) : Prop :=
  ∀ (name : String) (f : FunDecl) (args : List Value) (a : Activation) (stack : List Value)
    (rest : List Activation) (w : World) (s : State),
    p.function? name = some f → args.length = f.params.length →
    a.blueprint.code[a.pc]? = some (.call name) → a.stack = args.reverse ++ stack →
    rest.length + 1 = depth → s.At (a :: rest) w →
    Simulates m fuel s (call name args w) fun v w' s' =>
      s'.At (a.advance 1 (v :: stack) :: rest) w'

/-- Calls that work with some fuel work with less. -/
theorem SoundCalls.of_le {m : Machine} {p : Program} {call : String → List Value → Eval Value}
    {depth k fuel : Nat} (h : SoundCalls m p call depth fuel) (hle : k ≤ fuel) :
    SoundCalls m p call depth k := by
  intro name f args a stack rest w s hf hargs hi hst hdepth hs
  exact (h name f args a stack rest w s hf hargs hi hst hdepth hs).of_le hle

/-! ## Variables, operators, paths and built-in functions -/

/-- The instruction of an operator computes what the operator means. -/
theorem UnaryOp.perform_opcode (op : UnaryOp) :
    Action.perform (.plain op.opcode) = (do Action.unary op.apply; return .next) := by
  cases op <;> rfl

/-- The instruction of an operator computes what the operator means, of the left and the right
operand. -/
theorem BinaryOp.perform_opcode (op : BinaryOp) :
    Action.perform (.plain op.opcode) = (do Action.binary op.apply; return .next) := by
  cases op <;> rfl

section

variable {m : Machine} {s : State} {a : Activation} {rest : List Activation} {w : World}
  {fuel : Nat}

/-- Loading the slot of a visible variable reads the variable. -/
theorem simulates_load (htrace : m.settings.trace = false) (hs : s.At (a :: rest) w)
    {scope : Scope} {env : Environment} {name : String} {slot : Nat}
    (hagrees : Agrees scope env a.slots) (hslot : scope.resolve? name = some slot)
    (hi : a.blueprint.code[a.pc]? = some (.load slot)) :
    Simulates m fuel s (env.read name w) fun v w' s' =>
      s'.At (a.advance 1 (v :: a.stack) :: rest) w' := by
  obtain ⟨v, hv, hload⟩ := hagrees.get? hslot
  rw [Environment.read, hv]
  refine (goes_load htrace hs hload hi).simulates ?_
  intro s₁ hs₁
  exact .pure hs₁

/-- Reading fields one after the other goes through them. Induction on the fields, from the value
that the fields before have led to. -/
theorem simulates_walk (htrace : m.settings.trace = false) {fields : List String} {v : Value}
    {st : List Value} (hst : a.stack = v :: st)
    (hplaced : Placed a.blueprint.code a.pc (fields.map .getField)) (hs : s.At (a :: rest) w) :
    Simulates m fuel s (Eval.walk v fields w) fun v' w' s' =>
      s'.At (a.advance fields.length (v' :: st) :: rest) w' := by
  -- The value on top is the object whose field is read next.
  induction fields generalizing s a w v with
  | nil =>
    refine .pure ?_
    show s.At (a.advance 0 (v :: st) :: rest) w
    rw [← hst]
    exact hs
  | cons field fields ih =>
    rw [Eval.walk]
    refine .bind (simulates_getField htrace hs hst hplaced.head) ?_
    intro v' w' s' hs'
    refine (ih rfl hplaced.tail hs').imp ?_
    intro v'' w'' s'' hs''
    rw [Activation.advance_advance, Nat.add_comm] at hs''
    exact hs''

/-- The code of a built-in function does what the function means. -/
theorem simulates_builtin (htrace : m.settings.trace = false) {name : String} {b : Builtin}
    (hb : Builtin.find? name = some b) :
    ∃ f, builtin? name = some f ∧ ∀ (args st : List Value), args.length = b.arity →
      a.stack = args.reverse ++ st → Placed a.blueprint.code a.pc b.code → s.At (a :: rest) w →
      Simulates m fuel s (f args w) fun v w' s' =>
        s'.At (a.advance b.code.length (v :: st) :: rest) w' := by
  unfold Builtin.find? at hb
  split at hb
  -- Printing is the only one that takes two instructions.
  case h_1 =>
    cases hb
    refine ⟨_, rfl, ?_⟩
    intro args st hargs hst hplaced hs
    match args, hargs with
    | [v], _ =>
      refine .bind (simulates_write htrace hs hst hplaced.head) ?_
      intro _ w' s' hs'
      refine (goes_push htrace hs' hplaced.tail.head).simulates ?_
      intro s'' hs''
      exact .pure hs''
  case h_2 =>
    cases hb
    refine ⟨_, rfl, ?_⟩
    intro args st hargs hst hplaced hs
    match args, hargs with
    | [], _ =>
      refine .bind (simulates_read htrace hs hplaced.head) ?_
      intro line w' s' hs'
      refine .pure ?_
      rw [hst] at hs'
      exact hs'
  case h_4 =>
    cases hb
    refine ⟨_, rfl, ?_⟩
    intro args st hargs hst hplaced hs
    match args, hargs with
    | [index, string], _ => exact simulates_binary htrace hs hst hplaced.head rfl
  case h_11 => cases hb
  -- All others replace their only argument.
  all_goals
    cases hb
    refine ⟨_, rfl, ?_⟩
    intro args st hargs hst hplaced hs
    match args, hargs with
    | [v], _ => exact simulates_unary htrace hs hst hplaced.head rfl

end

/-- A name that lowering does not take for a built-in function has no meaning as one. -/
theorem builtin?_eq_none {name : String} (h : Builtin.find? name = none) :
    builtin? name = none := by
  cases hmeaning : builtin? name with
  | none => rfl
  | some meaning =>
    unfold builtin? at hmeaning
    split at hmeaning <;> simp_all [Builtin.find?]

/-! ## Expressions -/

section Expressions

variable {m : Machine} {p : Program} {function : String} {scope : Scope}

mutual

/-- The code of an expression evaluates it and pushes its value. -/
theorem ExprCode.simulates (hm : Runs m p) : ∀ {e : Expr} {c : Code},
    ExprCode (p.context function) scope e c →
    ∀ {call : String → List Value → Eval Value} {fuel : Nat} {env : Environment} {a : Activation}
      {rest : List Activation} {w : World} {s : State},
      s.At (a :: rest) w → SoundCalls m p call (rest.length + 1) fuel →
      Placed a.blueprint.code a.pc c → Agrees scope env a.slots →
      Simulates m fuel s (e.eval (p.services call fuel) env w) fun v w' s' =>
        s'.At (a.advance c.length (v :: a.stack) :: rest) w'
  | _, _, .literal l, call, fuel, env, a, rest, w, s, hs, _, hplaced, _ => by
    -- Each literal means the value that its instruction carries.
    have heval : (Expr.literal l).eval (p.services call fuel) env w
        = (pure l.value : Eval Value) w := by
      cases l <;> rw [Expr.eval] <;> rfl
    rw [heval]
    refine (goes_push hm.silent hs hplaced.head).simulates ?_
    intro s₁ hs₁
    exact .pure hs₁
  | _, _, .path hslot, call, fuel, env, a, rest, w, s, hs, _, hplaced, hagrees => by
    rw [Expr.eval, Environment.follow]
    refine .bind (simulates_load hm.silent hs hagrees hslot hplaced.head) ?_
    intro v w₁ s₁ hs₁
    refine (simulates_walk hm.silent rfl hplaced.tail hs₁).imp ?_
    intro v' w₂ s₂ hs₂
    rw [Activation.advance_advance, Nat.add_comm] at hs₂
    simpa using hs₂
  | _, _, .new hlayout hinits, call, fuel, env, a, rest, w, s, hs, hcalls, hplaced, hagrees => by
    obtain ⟨decl, hrecord, hfields, hnames⟩ := Program.record?_of_layout hlayout
    rw [Expr.eval, Program.services]
    cases fuel with
    | zero => rfl
    | succ fuel =>
      simp only [Program.construct, hrecord, hfields, hnames]
      refine .bind_step (simulates_alloc hm.silent hs hplaced.head) ?_
      intro id w₁ s₁ hs₁
      -- The allocation has paid for the unit of fuel that the initial values no longer have.
      have hless := hcalls.of_le (Nat.le_succ fuel)
      refine .bind (hinits.simulates hm hs₁ hless hplaced.tail hagrees rfl) ?_
      intro _ w₂ s₂ hs₂
      refine .pure ?_
      rw [Activation.advance_advance, Nat.add_comm] at hs₂
      exact hs₂
  | _, _, .call hcallee hargs, call, fuel, env, a, rest, w, s, hs, hcalls, hplaced, hagrees => by
    obtain ⟨hoperands, hcode⟩ := hplaced.append
    rw [Expr.eval]
    refine .bind (hargs.simulates hm hs hcalls hoperands hagrees) ?_
    rintro vs w₁ s₁ ⟨hlen, hs₁⟩
    rw [List.length_append]
    rcases Context.calleeCode_cases hcallee with ⟨b, hb, harity, rfl⟩ | ⟨hb, harity, rfl⟩
    · obtain ⟨f, hf, hsim⟩ := simulates_builtin hm.silent hb
      rw [hf]
      refine (hsim vs a.stack (hlen.trans harity.symm) rfl hcode hs₁).imp ?_
      intro v w₂ s₂ hs₂
      rw [Activation.advance_advance] at hs₂
      exact hs₂
    · -- The table of the program knows the function, so that the program does.
      have hnodup := Program.nodup_of_lower hm.lowered
      have hfound := harity
      rw [show (p.context function).table = .ofProgram p from rfl,
        TypeTable.arity?_ofProgram hnodup] at hfound
      obtain ⟨f, hf, hparams⟩ := Option.map_eq_some_iff.1 hfound
      rw [builtin?_eq_none hb]
      refine (hcalls _ f vs _ a.stack rest w₁ s₁ hf (hlen.trans hparams.symm) hcode.head rfl rfl
        hs₁).imp ?_
      intro v w₂ s₂ hs₂
      rw [Activation.advance_advance] at hs₂
      exact hs₂
  | _, _, .unary he, call, fuel, env, a, rest, w, s, hs, hcalls, hplaced, hagrees => by
    obtain ⟨hoperand, hop⟩ := hplaced.append
    rw [Expr.eval]
    refine .bind (he.simulates hm hs hcalls hoperand hagrees) ?_
    intro v w₁ s₁ hs₁
    refine (simulates_unary hm.silent hs₁ rfl hop.head (UnaryOp.perform_opcode _)).imp ?_
    intro v' w₂ s₂ hs₂
    rw [Activation.advance_advance] at hs₂
    simpa using hs₂
  | _, _, .binary hleft hright, call, fuel, env, a, rest, w, s, hs, hcalls, hplaced, hagrees => by
    obtain ⟨hoperands, hop⟩ := hplaced.append
    obtain ⟨hfirst, hsecond⟩ := hoperands.append
    rw [Expr.eval]
    refine .bind (hleft.simulates hm hs hcalls hfirst hagrees) ?_
    intro u w₁ s₁ hs₁
    refine .bind (hright.simulates hm hs₁ hcalls hsecond hagrees) ?_
    intro v w₂ s₂ hs₂
    rw [Activation.advance_advance] at hs₂
    rw [List.length_append] at hop
    refine (simulates_binary hm.silent hs₂ rfl hop.head (BinaryOp.perform_opcode _)).imp ?_
    intro v' w₃ s₃ hs₃
    rw [Activation.advance_advance] at hs₃
    simpa [Nat.add_assoc] using hs₃
  | _, _, .group he, call, fuel, env, a, rest, w, s, hs, hcalls, hplaced, hagrees => by
    rw [Expr.eval]
    exact he.simulates hm hs hcalls hplaced hagrees
termination_by structural _ _ h => h

/-- The code of arguments evaluates them from left to right, and pushes their values. -/
theorem ArgsCode.simulates (hm : Runs m p) : ∀ {es : List Expr} {c : Code},
    ArgsCode (p.context function) scope es c →
    ∀ {call : String → List Value → Eval Value} {fuel : Nat} {env : Environment} {a : Activation}
      {rest : List Activation} {w : World} {s : State},
      s.At (a :: rest) w → SoundCalls m p call (rest.length + 1) fuel →
      Placed a.blueprint.code a.pc c → Agrees scope env a.slots →
      Simulates m fuel s (Expr.evalAll (p.services call fuel) env es w) fun vs w' s' =>
        vs.length = es.length ∧ s'.At (a.advance c.length (vs.reverse ++ a.stack) :: rest) w'
  | _, _, .nil, call, fuel, env, a, rest, w, s, hs, _, _, _ => by
    rw [Expr.evalAll]
    exact .pure ⟨rfl, hs⟩
  | _, _, .cons he hrest, call, fuel, env, a, rest, w, s, hs, hcalls, hplaced, hagrees => by
    obtain ⟨hfirst, hothers⟩ := hplaced.append
    rw [Expr.evalAll]
    -- The slots have not changed, so that the others are evaluated with the same variables.
    refine .bind (he.simulates hm hs hcalls hfirst hagrees) ?_
    intro v w₁ s₁ hs₁
    refine .bind (hrest.simulates hm hs₁ hcalls hothers hagrees) ?_
    rintro vs w₂ s₂ ⟨hlen, hs₂⟩
    refine .pure ⟨by simp [hlen], ?_⟩
    rw [Activation.advance_advance] at hs₂
    simpa [Activation.advance] using hs₂
termination_by structural _ _ h => h

/-- The code of initial values evaluates each of them and sets its field, with the object still on
the stack. -/
theorem FieldsCode.simulates (hm : Runs m p) : ∀ {fields : List VarDecl} {c : Code},
    FieldsCode (p.context function) scope fields c →
    ∀ {call : String → List Value → Eval Value} {fuel : Nat} {env : Environment} {a : Activation}
      {rest : List Activation} {w : World} {s : State} {target : Value} {st : List Value},
      s.At (a :: rest) w → SoundCalls m p call (rest.length + 1) fuel →
      Placed a.blueprint.code a.pc c → Agrees scope env a.slots → a.stack = target :: st →
      Simulates m fuel s (initialise (Expr.eval (p.services call fuel) env) target fields w)
        fun _ w' s' => s'.At (a.advance c.length (target :: st) :: rest) w'
  | _, _, .nil, call, fuel, env, a, rest, w, s, target, st, hs, _, _, _, hst => by
    rw [initialise]
    refine .pure ?_
    rw [← hst]
    exact hs
  | _, _, .cons hinit hrest, call, fuel, env, a, rest, w, s, target, st, hs, hcalls, hplaced,
      hagrees, hst => by
    obtain ⟨hvalue, hset⟩ := hplaced.tail.append
    rw [initialise]
    refine (goes_dup hm.silent hs hst hplaced.head).simulates ?_
    intro s₁ hs₁
    refine .bind (hinit.simulates hm hs₁ hcalls hvalue hagrees) ?_
    intro v w₂ s₂ hs₂
    rw [Activation.advance_advance] at hs₂
    -- The copy of the object is used up by setting the field.
    refine .bind (simulates_setField hm.silent hs₂ rfl ?_) ?_
    · rw [Nat.add_assoc] at hset
      exact hset.head
    intro _ w₃ s₃ hs₃
    rw [Activation.advance_advance] at hs₃
    refine (hrest.simulates hm hs₃ hcalls ?_ hagrees rfl).imp ?_
    · simpa [Activation.advance, Nat.add_assoc] using hset.tail
    intro _ w₄ s₄ hs₄
    rw [Activation.advance_advance] at hs₄
    simpa [Nat.add_assoc, Nat.add_comm, Nat.add_left_comm] using hs₄
termination_by structural _ _ h => h

end

end Expressions

end RecordMachine
