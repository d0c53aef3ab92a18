import Mathlib
import RecordMachine.Proofs.Meaning.Statement

/-!
# Lowering preserves the meaning of programs

A call instruction does what a call means, by induction on the fuel: the step that enters a function
pays for the unit of fuel that the call uses up, and its body is code of statements. So a run of the
machine does what the interpreter says, with a result, with a fault, or without an end.

Runs are deterministic, and the interpreter never finds a compiled program ill formed, so both have
exactly one behaviour, and it is the same one.
-/

namespace RecordMachine

/-! ## Bodies of functions -/

/-- Statements that end with a return do return, if they end. -/
theorem Stmt.not_normal_of_isReturn {sv : Services} {fuel : Nat} {body : List Stmt}
    (hreturn : body.getLast?.any Stmt.isReturn = true) {env env' : Environment} {w w' : World} :
    Stmt.execAll sv fuel env body w ≠ some (.ok (.normal env'), w') := by
  induction body generalizing env w with
  | nil => cases hreturn
  | cons stmt rest ih =>
    rw [Stmt.execAll, Eval.bind_apply]
    cases rest with
    | nil =>
      -- The only statement is the return.
      have hstmt : stmt.isReturn = true := by simpa using hreturn
      cases stmt with
      | ret e =>
        cases e with
        | none =>
          rw [Stmt.exec]
          rintro ⟨⟩
        | some e =>
          rw [Stmt.exec, Eval.bind_apply]
          rcases e.eval sv env w with _ | ⟨_ | v, w₁⟩
          · rintro ⟨⟩
          · rintro ⟨⟩
          · rintro ⟨⟩
      | _ => cases hstmt
    | cons next others =>
      have hothers : (next :: others).getLast?.any Stmt.isReturn = true := by
        rw [List.getLast?_cons_cons] at hreturn
        exact hreturn
      rcases stmt.exec sv fuel env w with _ | ⟨_ | (env₁ | v), w₁⟩
      · rintro ⟨⟩
      · rintro ⟨⟩
      · exact ih hothers
      · rintro ⟨⟩

section Calls

variable {m : Machine} {p : Program}

/-- The code of a function gets to a return of the value that its call means. -/
theorem simulates_body (hm : Runs m p) {call : String → List Value → Eval Value}
    {depth fuel : Nat} (hcalls : SoundCalls m p call depth fuel) {f : FunDecl} {b : Blueprint}
    (hlower : f.lower (.ofProgram p) p.types = .ok b) {args : List Value}
    (hargs : args.length = f.params.length) {rest : List Activation} {w : World} {s : State}
    (hdepth : rest.length + 1 = depth) (hs : s.At (Activation.enter b args :: rest) w) :
    Simulates m fuel s (f.call (p.services call fuel) fuel args w) fun v w' s' =>
      ∃ a : Activation, a.stack = [v] ∧ a.blueprint.code[a.pc]? = some (.plain .ret) ∧
        s'.At (a :: rest) w' := by
  obtain ⟨c, scope', hbody, hb⟩ := FunDecl.lower_eq_ok hlower
  have hcode : Placed b.code 0 (c ++ closingCode f.body) := by
    intro j i hi
    rw [hb, Nat.zero_add]
    simpa using hi
  obtain ⟨hstmts, hclosing⟩ := hcode.append
  -- The body starts in the scope of its parameters, and the arguments are in their slots.
  have hcarries := hbody.carries hm hcalls (Scope.orderly_ofParams _) hs hdepth rfl hstmts
    (Agrees.ofArgs hargs)
  rw [FunDecl.call]
  refine .bind hcarries.with_result ?_
  rintro exit w₁ s₁ ⟨hresult, hexit⟩
  cases exit with
  | returned v => exact .pure hexit
  | normal env =>
    -- The end of the body is reached, so its last statement is no return and nil is pushed.
    obtain ⟨slots, _, hs₁⟩ := hexit
    have hopen : ¬f.body.getLast?.any Stmt.isReturn = true := fun hreturn =>
      Stmt.not_normal_of_isReturn hreturn hresult
    unfold closingCode at hclosing
    rw [if_neg hopen] at hclosing
    refine (goes_push hm.silent hs₁ hclosing.head).simulates ?_
    intro s₂ hs₂
    exact .pure ⟨_, rfl, hclosing.tail.head, hs₂⟩

/-- The machine and the interpreter look at the limit in the same way. -/
theorem Machine.atLimit_eq_filter (m : Machine) (depth : Nat) :
    m.atLimit depth = m.settings.maxCallDepth.filter (· ≤ depth) := by
  unfold Machine.atLimit
  cases m.settings.maxCallDepth with
  | none => rfl
  | some limit => simp [Option.filter]

/-- Calls do what they mean, however deep they nest. -/
theorem soundCalls_invoke (hm : Runs m p) (fuel depth : Nat) :
    SoundCalls m p (p.invoke m.settings.maxCallDepth fuel depth) depth fuel := by
  induction fuel generalizing depth with
  | zero =>
    intro name f args a stack rest w s _ _ _ _ _ _
    rfl
  | succ fuel ih =>
    intro name f args a stack rest w s hf hargs hi hst hdepth hs
    have hlookup := Program.get?_of_lower hm.lowered name
    rw [hf] at hlookup
    obtain ⟨b, hlower, hb⟩ := hlookup
    rw [Program.invoke, hf]
    simp only
    rw [← Machine.atLimit_eq_filter]
    cases hlimit : m.atLimit depth with
    | some limit =>
      subst hdepth
      exact ⟨1, fails_call hm.silent hs hb hlimit hi⟩
    | none =>
      simp only [if_pos hargs]
      rw [← hdepth] at hlimit
      have hparams : args.length = b.params := hargs.trans (FunDecl.params_of_lower hlower).symm
      -- Entering the function pays for the fuel that the call uses up.
      refine (goes_call hm.silent hs hb hlimit hst hparams hi).simulates_succ ?_
      intro s₁ hs₁
      have hdeeper : (a.advance 1 stack :: rest).length + 1 = depth + 1 := by
        rw [List.length_cons, hdepth]
      have hbody := simulates_body hm (ih (depth + 1)) hlower hargs hdeeper hs₁
      refine hbody.extend ?_
      rintro v w₂ s₂ ⟨callee, hstack, hret, hs₂⟩
      -- The value is handed to the caller, which has waited behind its call.
      refine (goes_ret hm.silent hs₂ hstack rfl hret).simulates ?_
      intro s₃ hs₃
      exact .pure hs₃

end Calls

/-! ## Behaviours -/

/-- What can be seen of a run: its end, with the heap and the console that it leaves, or that it has
none. -/
inductive Behaviour where
  | returns (v : Value) (w : World)
  | fails (cause : Cause) (w : World)
  | runsForever

/-- The behaviour of a machine that starts a run in a state. -/
def Machine.Behaves (m : Machine) (s : State) : Behaviour → Prop
  | .returns v w => ∃ fuel s', m.run fuel s = some (.ok v, s') ∧ s'.world = w
  | .fails cause w =>
    ∃ fuel fault s', m.run fuel s = some (.error fault, s') ∧ fault.cause = cause ∧ s'.world = w
  | .runsForever => ∀ fuel, m.run fuel s = none

/-- The behaviour that a program means, in a world. -/
def Program.Means (p : Program) (settings : Settings) (w : World) : Behaviour → Prop
  | .returns v w' => ∃ fuel, p.interpret settings fuel w = some (.ok v, w')
  | .fails cause w' => ∃ fuel, p.interpret settings fuel w = some (.error (.fault cause), w')
  | .runsForever => ∀ fuel, p.interpret settings fuel w = none

/-- What can be seen of a run that has ended. -/
def Behaviour.seen : Except Fault Value × State → Behaviour
  | (.ok v, s) => .returns v s.world
  | (.error fault, s) => .fails fault.cause s.world

namespace Machine

variable {m : Machine} {s : State}

/-- However many steps are allowed, a run has one answer at most. -/
theorem run_unique {k n : Nat} {r r' : Except Fault Value × State}
    (h : m.run k s = some r) (h' : m.run n s = some r') : r = r' := by
  unfold run at h h'
  cases hentry : m.entry with
  | error cause =>
    rw [hentry] at h h'
    exact Option.some.inj (h.symm.trans h')
  | ok b =>
    rw [hentry] at h h'
    obtain ⟨q, hq, rfl⟩ := Option.map_eq_some_iff.1 h
    obtain ⟨q', hq', rfl⟩ := Option.map_eq_some_iff.1 h'
    rw [loop_unique hq hq']

/-- A run that has started ends as its steps do. -/
theorem run_of_loop {b : Blueprint} {n : Nat} {result : Except Fault Value} {s' : State}
    (hentry : m.entry = .ok b) (h : m.loop n (m.begin s b) = some (result, s')) :
    m.run n s = some (result, finish result s') := by
  unfold run
  rw [hentry]
  simp only [h, Option.map_some]

/-- The report at the end of a run changes neither heap nor console. -/
theorem world_finish (result : Except Fault Value) (s : State) :
    (finish result s).world = s.world := by
  cases result <;> rfl

/-- A run that has ended has one behaviour, which can be seen at its end. -/
theorem behaves_iff_of_run {k : Nat} {r : Except Fault Value × State} (h : m.run k s = some r)
    (b : Behaviour) : m.Behaves s b ↔ b = .seen r := by
  constructor
  · intro hb
    cases b with
    | returns v w =>
      obtain ⟨n, s', hrun, rfl⟩ := hb
      rw [run_unique h hrun, Behaviour.seen]
    | fails cause w =>
      obtain ⟨n, fault, s', hrun, rfl, rfl⟩ := hb
      rw [run_unique h hrun, Behaviour.seen]
    | runsForever =>
      rw [hb k] at h
      cases h
  · rintro rfl
    rcases r with ⟨fault | v, s'⟩
    · exact ⟨k, fault, s', h, rfl, rfl⟩
    · exact ⟨k, s', h, rfl⟩

/-- A machine has at most one behaviour. -/
theorem Behaves.unique {b b' : Behaviour} (h : m.Behaves s b) (h' : m.Behaves s b') : b = b' := by
  by_cases hend : ∃ k r, m.run k s = some r
  · obtain ⟨k, r, hrun⟩ := hend
    rw [(behaves_iff_of_run hrun b).1 h, (behaves_iff_of_run hrun b').1 h']
  · -- Neither of the two can be a behaviour with an end.
    have hforever : ∀ b, m.Behaves s b → b = .runsForever := by
      intro b hb
      cases b with
      | returns v w =>
        obtain ⟨k, s', hrun, _⟩ := hb
        exact absurd ⟨k, _, hrun⟩ hend
      | fails cause w =>
        obtain ⟨k, fault, s', hrun, _⟩ := hb
        exact absurd ⟨k, _, hrun⟩ hend
      | runsForever => rfl
    rw [hforever b h, hforever b' h']

end Machine

section Runs

variable {m : Machine} {p : Program}

/-- The whole run of a function without parameters, which the run of the machine starts in. -/
theorem simulates_entry (hm : Runs m p) {f : FunDecl} {b : Blueprint}
    (hlower : f.lower (.ofProgram p) p.types = .ok b) (hparams : f.params.length = 0) (fuel : Nat)
    (s : State) :
    Simulates m fuel (m.begin s b)
      (f.call (p.services (p.invoke m.settings.maxCallDepth fuel 1) fuel) fuel [] s.world)
      fun v w s' => ∃ s'', m.loop 1 s' = some (.ok v, s'') ∧ s''.world = w := by
  have hs : (m.begin s b).At [Activation.enter b []] s.world := ⟨rfl, rfl⟩
  have hargs : ([] : List Value).length = f.params.length := hparams.symm
  refine (simulates_body hm (soundCalls_invoke hm fuel 1) hlower hargs rfl hs).imp ?_
  rintro v w s' ⟨a, hstack, hret, hs'⟩
  exact loop_ret hm.silent hs' hstack rfl hret

/-- A run does what the interpreter says, for every fuel. -/
theorem run_of_interpret (hm : Runs m p) (fuel : Nat) (s : State) :
    match p.interpret m.settings fuel s.world with
    | none => m.run fuel s = none
    | some (.ok v, w) => m.Behaves s (.returns v w)
    | some (.error (.fault cause), w) => m.Behaves s (.fails cause w)
    | some (.error .illFormed, _) => False := by
  have hlookup := Program.get?_of_lower hm.lowered m.settings.entryPoint
  unfold Program.interpret
  cases hf : p.function? m.settings.entryPoint with
  | none =>
    rw [hf] at hlookup
    refine ⟨0, ⟨_, none⟩, s, ?_, rfl, rfl⟩
    unfold Machine.run Machine.entry
    rw [hlookup]
  | some f =>
    rw [hf] at hlookup
    obtain ⟨b, hlower, hb⟩ := hlookup
    have hbparams := FunDecl.params_of_lower hlower
    dsimp only
    split_ifs with hparams
    · -- The function of that name is the one that the machine starts in.
      have hentry : m.entry = .ok b := by
        unfold Machine.entry
        rw [hb]
        simp only
        rw [if_pos (hbparams.trans hparams)]
      have hsim := simulates_entry hm hlower hparams fuel s
      generalize f.call _ fuel [] s.world = outcome at hsim ⊢
      rcases outcome with _ | ⟨(cause | _) | v, w⟩
      · unfold Machine.run
        rw [hentry]
        simp only [show m.loop fuel (m.begin s b) = none from hsim, Option.map_none]
      · obtain ⟨n, fault, s', hloop, hcause, rfl⟩ := hsim
        exact ⟨n, fault, _, Machine.run_of_loop hentry hloop, hcause, Machine.world_finish _ s'⟩
      · exact hsim
      · obtain ⟨n, s', hsteps, s'', hend, rfl⟩ := hsim
        have hloop : m.loop (n + 1) (m.begin s b) = some (.ok v, s'') := by
          rw [Machine.loop_of_steps hsteps]
          exact hend
        exact ⟨n + 1, _, Machine.run_of_loop hentry hloop, Machine.world_finish _ s''⟩
    · refine ⟨0, ⟨_, none⟩, s, ?_, rfl, rfl⟩
      unfold Machine.run Machine.entry
      rw [hb]
      simp only
      rw [if_neg (by rw [hbparams]; exact hparams), hbparams]

/-- Whatever a program means, the machine does. -/
theorem behaves_of_means (hm : Runs m p) {s : State} {b : Behaviour}
    (h : p.Means m.settings s.world b) : m.Behaves s b := by
  -- The interpreter and the run agree for every fuel, so they agree for the one that suffices.
  cases b with
  | returns v w =>
    obtain ⟨fuel, hfuel⟩ := h
    have hrun := run_of_interpret hm fuel s
    rw [hfuel] at hrun
    exact hrun
  | fails cause w =>
    obtain ⟨fuel, hfuel⟩ := h
    have hrun := run_of_interpret hm fuel s
    rw [hfuel] at hrun
    exact hrun
  | runsForever =>
    intro fuel
    have hrun := run_of_interpret hm fuel s
    rw [h fuel] at hrun
    exact hrun

/-- A compiled program means something in every world. -/
theorem exists_means (hm : Runs m p) (s : State) : ∃ b, p.Means m.settings s.world b := by
  by_cases hend : ∃ fuel r, p.interpret m.settings fuel s.world = some r
  · obtain ⟨fuel, r, hr⟩ := hend
    have hrun := run_of_interpret hm fuel s
    rw [hr] at hrun
    -- An ill formed program would contradict the run.
    rcases r with ⟨(cause | _) | v, w⟩
    · exact ⟨.fails cause w, fuel, hr⟩
    · exact hrun.elim
    · exact ⟨.returns v w, fuel, hr⟩
  · refine ⟨.runsForever, ?_⟩
    intro fuel
    cases hfuel : p.interpret m.settings fuel s.world with
    | none => rfl
    | some r => exact absurd ⟨fuel, r, hfuel⟩ hend

end Runs

/-- Lowering preserves meaning. A machine that runs a compiled program without a trace behaves, from
any state, as the interpreter says for the heap and the console of that state: it returns the same
value, or fails for the same cause, and leaves the same heap and console with the same output, or it
runs forever. The interpreter never finds a compiled program without a meaning, and finds exactly
one for it. -/
theorem Program.lower_preserves_meaning {p : Program} {bc : Bytecode} {settings : Settings}
    (hlower : p.lower (.ofProgram p) = .ok bc) (htrace : settings.trace = false) (s : State) :
    (∀ b, Machine.Behaves ⟨bc, settings⟩ s b ↔ p.Means settings s.world b) ∧
      ∃! b, p.Means settings s.world b := by
  have hm : Runs ⟨bc, settings⟩ p := ⟨hlower, htrace⟩
  obtain ⟨b, hb⟩ := exists_means hm s
  have hbehaves := behaves_of_means hm hb
  refine ⟨fun b' => ⟨?_, behaves_of_means hm⟩, b, hb, ?_⟩
  · intro hb'
    rw [← hbehaves.unique hb']
    exact hb
  · intro b' hb'
    exact (behaves_of_means hm hb').unique hbehaves

/-- A program that counts a record up in a loop, through a function, and prints what it has got. -/
def Program.counting : Program where
  types := [⟨"Cell", [⟨"value", none, .literal (.int 0)⟩]⟩]
  functions :=
    [⟨"main", "int", [],
      [.declare ⟨"cell", none, .new "Cell"⟩,
        .forLoop "i" (.literal (.int 1)) .upTo (.literal (.int 3))
          [.assign ["cell", "value"] (.call "plus" [.path ["cell", "value"], .path ["i"]])],
        .call "print" [.path ["cell", "value"]],
        .ret (some (.path ["cell", "value"]))]⟩,
      ⟨"plus", "int", [⟨"x", "int"⟩, ⟨"y", "int"⟩],
        [.ret (some (.binary .add (.path ["x"]) (.path ["y"])))]⟩]

/-- The compiled program prints and returns 6, because that is what the program means. -/
theorem Program.lower_preserves_meaning_counting :
    ∃ bc w, counting.lower (.ofProgram counting) = .ok bc ∧ ({} : Settings).trace = false ∧
      w.console.output = "6" ∧
      Machine.Behaves ⟨bc, {}⟩ { heap := Heap.new 1111 } (.returns (.int 6) w) := by
  have hmeans : ∃ w : World, counting.Means {} ⟨Heap.new 1111, {}⟩ (.returns (.int 6) w) ∧
      w.console.output = "6" :=
    ⟨_, ⟨5, by cbv⟩, by cbv⟩
  obtain ⟨w, hmeans, hw⟩ := hmeans
  exact ⟨_, w, rfl, rfl, hw, ((lower_preserves_meaning rfl rfl _).1 _).2 hmeans⟩

end RecordMachine
