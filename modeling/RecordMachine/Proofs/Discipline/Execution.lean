import RecordMachine.Proofs.Discipline.Actions
import RecordMachine.Proofs.Discipline.Lowered

/-!
# Runs keep to the marks

If the functions of a program have marks that their instructions fit, then a run of the program is
at every step where the marks say: the innermost activation has as many operands as the mark of its
index tells, and every other activation has one less, which the call in progress is going to push
(`State.Meets`). One step keeps that and fails for no structural reason (`Machine.step_safe`), and
so does a run.

The number of operands at an index needs no marks to be told. It is what the instructions before it
leave, counted from the first one on as they stand (`Blueprint.stackDepth`).
-/

namespace RecordMachine

def Bytecode.arity? (bc : Bytecode) (name : String) : Option Nat :=
  (bc.get? name).map Blueprint.params

/-- The number of operands at an index: what the instructions before it leave, one after the other
as they stand. -/
def Blueprint.stackDepth (bc : Bytecode) (b : Blueprint) (pc : Nat) : Nat :=
  (b.code.toList.take pc).foldl
    (fun depth i => depth - i.demand bc.arity? + i.opcode.pushes) 0

/-- Every function of the program has marks that its instructions fit. -/
structure Bytecode.Certified (bc : Bytecode) (marks : Blueprint → Marking) : Prop where
  inside : ∀ b ∈ bc.blueprints, ∀ pc, (marks b pc).isSome → pc < b.code.size
  start : ∀ b ∈ bc.blueprints, (marks b).Accepts 0 ⟨0, b.params⟩
  suits : ∀ b ∈ bc.blueprints, (marks b).Suits bc.arity? 0 b.code.toList

/-- An activation has what its mark says, apart from `owed` operands that are still to come. -/
def Activation.Meets (bc : Bytecode) (marks : Blueprint → Marking) (owed : Nat) (a : Activation) :
    Prop :=
  a.blueprint ∈ bc.blueprints ∧ ∃ k, marks a.blueprint a.pc = some k ∧
    a.stack.length + owed = k.depth ∧ k.reach ≤ a.slots.length

/-- Every activation has what its mark says; all but the innermost one wait for a value. -/
def State.Meets (bc : Bytecode) (marks : Blueprint → Marking) (s : State) : Prop :=
  ∃ a rest, s.frames = a :: rest ∧ a.Meets bc marks 0 ∧ ∀ a' ∈ rest, a'.Meets bc marks 1

section Certified

variable {bc : Bytecode} {marks : Blueprint → Marking}

/-- A marked index has an instruction, and it fits its mark. -/
theorem Bytecode.Certified.fits (h : bc.Certified marks) {b : Blueprint} (hb : b ∈ bc.blueprints)
    {pc : Nat} {k : Mark} (hk : marks b pc = some k) :
    ∃ i, b.code[pc]? = some i ∧ i.Fits bc.arity? (marks b) pc k := by
  have hlt : pc < b.code.size := h.inside b hb pc (by rw [hk]; rfl)
  have hi : b.code[pc]? = some b.code[pc] := Array.getElem?_eq_getElem hlt
  obtain ⟨k', hk', hfits⟩ := h.suits b hb pc b.code[pc] (by rw [Array.getElem?_toList]; exact hi)
  rw [Nat.zero_add] at hk' hfits
  rw [hk] at hk'
  cases hk'
  exact ⟨b.code[pc], hi, hfits⟩

/-- The depth of a mark is counted from the start of the code. Induction on the index: each
instruction leaves the depth that the next index is marked with, also if it jumps away. -/
theorem Bytecode.Certified.depth_eq (h : bc.Certified marks) {b : Blueprint}
    (hb : b ∈ bc.blueprints) {pc : Nat} {k : Mark} (hk : marks b pc = some k) :
    k.depth = b.stackDepth bc pc := by
  induction pc generalizing k with
  | zero => exact (h.start b hb).depth_eq hk
  | succ pc ih =>
    have hlt : pc + 1 < b.code.size := h.inside b hb (pc + 1) (by rw [hk]; rfl)
    -- The index before has an instruction, hence a mark.
    have hi : b.code.toList[pc]? = some b.code[pc] := by
      rw [Array.getElem?_toList]
      exact Array.getElem?_eq_getElem (by omega)
    obtain ⟨k₀, hk₀, hfits⟩ := h.suits b hb pc b.code[pc] hi
    rw [Nat.zero_add] at hk₀ hfits
    rw [hfits.level k hk, Instruction.after, ih hk₀]
    unfold Blueprint.stackDepth
    rw [List.take_add_one, hi, List.foldl_append]
    rfl

end Certified

/-! ## Steps -/

/-- With more slots before an instruction there are not fewer after it. -/
theorem Instruction.gain_mono (i : Instruction) {reach reach' : Nat} (h : reach ≤ reach') :
    i.gain reach ≤ i.gain reach' := by
  unfold Instruction.gain
  split
  · omega
  · exact h

section Steps

variable {m : Machine} {marks : Blueprint → Marking}

/-- A callee begins at the first index, with its arguments as slots and no operands. -/
theorem Activation.meets_enter (h : m.bytecode.Certified marks) {name : String} {b : Blueprint}
    (hb : m.bytecode.get? name = some b) {args : List Value} (hargs : args.length = b.params) :
    (Activation.enter b args).Meets m.bytecode marks 0 := by
  have hmem := (Bytecode.mem_of_get? hb).1
  obtain ⟨k, hk, hdepth, hreach⟩ := h.start b hmem
  refine ⟨hmem, k, hk, hdepth.symm, ?_⟩
  show k.reach ≤ args.length
  rw [hargs]
  exact hreach

/-- A step leads to a state with what the marks say, ends the run, or fails for no structural
reason. -/
def Step.Safe (bc : Bytecode) (marks : Blueprint → Marking) : Step → Prop
  | .next s => s.Meets bc marks
  | .done _ _ => True
  | .failed fault _ => fault.cause.kind.isStructural = false

/-- A call finds its function and its arguments, and leaves the caller waiting for the value. -/
theorem Machine.enter_safe (h : m.bytecode.Certified marks) (s : State) {a : Activation}
    {rest : List Activation} {i : Instruction} {k : Mark} {name : String}
    (hmem : a.blueprint ∈ m.bytecode.blueprints)
    (hfits : i.Fits m.bytecode.arity? (marks a.blueprint) a.pc k)
    (hopcode : i.opcode = .call) (hoperand : i.operand = some (.name name))
    (hdepth : a.stack.length = k.depth) (hreach : k.reach ≤ a.slots.length)
    (hrest : ∀ a' ∈ rest, a'.Meets m.bytecode marks 1) :
    match m.enter s { a with pc := a.pc + 1 } rest name with
    | .ok s' => s'.Meets m.bytecode marks
    | .error cause => cause.kind.isStructural = false := by
  obtain ⟨arity, harity⟩ := Option.isSome_iff_exists.1 (hfits.known name hopcode hoperand)
  obtain ⟨b, hb, rfl⟩ := Option.map_eq_some_iff.1 harity
  -- The mark counts the parameters of the function that is really called.
  have hdemand : i.demand m.bytecode.arity? = b.params := by
    unfold Instruction.demand
    rw [hopcode, hoperand]
    simp only [harity, Option.getD_some]
  have henough : b.params ≤ a.stack.length := by
    rw [hdepth, ← hdemand]
    exact hfits.enough
  unfold Machine.enter
  rw [hb]
  dsimp only
  cases m.atLimit (rest.length + 1) with
  | some limit => rfl
  | none =>
    unfold Activation.popMany
    dsimp only
    rw [if_pos henough]
    have hargs : (a.stack.take b.params).reverse.length = b.params := by
      rw [List.length_reverse, List.length_take]
      omega
    have hentered := Activation.meets_enter h hb hargs
    -- Behind the call one operand more is expected than the caller has now.
    have hnext : a.pc + 1 ∈ i.successors (a.pc + 1) := by
      unfold Instruction.successors
      rw [hopcode]
      exact List.mem_cons_self
    obtain ⟨k', hk', hdepth', hreach'⟩ := hfits.flow _ hnext
    have hwaiting : Activation.Meets m.bytecode marks 1
        { a with pc := a.pc + 1, stack := a.stack.drop b.params } := by
      refine ⟨hmem, k', hk', ?_, ?_⟩
      · rw [hdepth']
        unfold Instruction.after
        rw [hdemand, hopcode]
        show (a.stack.drop b.params).length + 1 = k.depth - b.params + 1
        rw [List.length_drop, hdepth]
      · have hgain : i.gain k.reach = k.reach := by
          unfold Instruction.gain
          rw [hopcode]
        exact Nat.le_trans (Nat.le_trans hreach' (Nat.le_of_eq hgain)) hreach
    refine ⟨_, _, rfl, hentered, ?_⟩
    intro a' ha'
    rcases List.mem_cons.1 ha' with rfl | hold
    · exact hwaiting
    · exact hrest a' hold

/-- Executing an instruction that fits its mark. Where it goes on, `Action.perform_does` tells the
depth and `Instruction.Fits.flow` the mark there. -/
theorem Machine.execute_safe (h : m.bytecode.Certified marks) {s : State} {a : Activation}
    {rest : List Activation} {i : Instruction} {k : Mark} {place : Location}
    (hmem : a.blueprint ∈ m.bytecode.blueprints)
    (hfits : i.Fits m.bytecode.arity? (marks a.blueprint) a.pc k)
    (hdepth : a.stack.length = k.depth) (hreach : k.reach ≤ a.slots.length)
    (hrest : ∀ a' ∈ rest, a'.Meets m.bytecode marks 1) :
    (Machine.stepOfResult place (m.execute s { a with pc := a.pc + 1 } rest i)).Safe m.bytecode
      marks := by
  have hhas : (s.focus { a with pc := a.pc + 1 }).Has a.blueprint (a.pc + 1) k.depth
      a.slots.length :=
    ⟨rfl, rfl, hdepth, rfl⟩
  have hdoes := Action.perform_does hfits.toApplies hhas hreach
  unfold Action.Does at hdoes
  unfold Machine.execute
  cases hresult : Action.perform i (s.focus { a with pc := a.pc + 1 }) with
  | error cause l =>
    rw [hresult] at hdoes
    exact hdoes
  | ok flow l =>
    rw [hresult] at hdoes
    cases flow with
    | next =>
      obtain ⟨pc', hpc', hleft⟩ := hdoes
      obtain ⟨k', hk', hdepth', hreach'⟩ := hfits.flow pc' hpc'
      refine ⟨l.top, rest, rfl, ⟨?_, k', ?_, ?_, ?_⟩, hrest⟩
      · rw [hleft.blueprint]
        exact hmem
      · rw [hleft.blueprint, hleft.pc]
        exact hk'
      · rw [hleft.depth, hdepth']
        rfl
      · rw [hleft.slots]
        exact Nat.le_trans hreach' (i.gain_mono hreach)
    | call name =>
      obtain ⟨hopcode, hoperand, rfl⟩ := hdoes
      have hentered := Machine.enter_safe h (s.restore (s.focus { a with pc := a.pc + 1 }) rest)
        hmem hfits hopcode hoperand hdepth hreach hrest
      simp only [State.focus] at hentered ⊢
      split
      · next henter =>
        rw [henter] at hentered
        exact hentered
      · next henter =>
        rw [henter] at hentered
        exact hentered
    | ret v =>
      cases rest with
      | nil => trivial
      | cons caller others =>
        -- The caller has been counted with the result already there.
        obtain ⟨hcaller, k', hk', hdepth', hreach'⟩ := hrest caller List.mem_cons_self
        refine ⟨caller.push v, others, rfl, ⟨hcaller, k', hk', hdepth', hreach'⟩, ?_⟩
        exact fun a' ha' => hrest a' (List.mem_cons_of_mem _ ha')

/-- One step from a state with what the marks say: only writing the trace can fail on top of what
the instruction does. -/
theorem Machine.step_safe (h : m.bytecode.Certified marks) {s : State}
    (hs : s.Meets m.bytecode marks) : (m.step s).Safe m.bytecode marks := by
  obtain ⟨a, rest, hframes, ⟨hmem, k, hk, hdepth, hreach⟩, hrest⟩ := hs
  obtain ⟨i, hi, hfits⟩ := h.fits hmem hk
  obtain ⟨ready, _, _, _, hstep⟩ := Machine.step_eq (m := m) hframes hi
  rcases hstep with hstep | ⟨cause, _, hkind, hstep⟩
  · rw [hstep]
    exact Machine.execute_safe h hmem hfits hdepth hreach hrest
  · -- The trace could not be written.
    rw [hstep]
    show cause.kind.isStructural = false
    rw [hkind]
    rfl

/-- Every state of a run has what the marks say. Induction on the steps. -/
theorem Machine.Steps.meets (h : m.bytecode.Certified marks) {n : Nat} {s s' : State}
    (hsteps : m.Steps n s s') (hs : s.Meets m.bytecode marks) : s'.Meets m.bytecode marks := by
  induction hsteps with
  | refl s => exact hs
  | head hstep _ ih =>
    apply ih
    have hsafe := Machine.step_safe h hs
    rw [hstep] at hsafe
    exact hsafe

/-- A run that fails does not fail for a structural reason. -/
theorem Machine.loop_safe (h : m.bytecode.Certified marks) {n : Nat} {s s' : State} {fault : Fault}
    (hs : s.Meets m.bytecode marks) (hloop : m.loop n s = some (.error fault, s')) :
    fault.cause.kind.isStructural = false := by
  induction n generalizing s with
  | zero => cases hloop
  | succ n ih =>
    have hsafe := Machine.step_safe h hs
    rw [Machine.loop] at hloop
    cases hstep : m.step s with
    | next s₁ =>
      rw [hstep] at hloop hsafe
      exact ih hsafe hloop
    | done v s₁ =>
      rw [hstep] at hloop
      cases hloop
    | failed fault' s₁ =>
      rw [hstep] at hloop hsafe
      cases hloop
      exact hsafe

/-- A run begins with what the marks say: the function that it starts in has no parameters. -/
theorem Machine.begin_meets (h : m.bytecode.Certified marks) {b : Blueprint}
    (hentry : m.entry = .ok b) (s : State) : (m.begin s b).Meets m.bytecode marks := by
  unfold Machine.entry at hentry
  split at hentry
  · cases hentry
  · next b' hb =>
    split at hentry
    · next hparams =>
      cases hentry
      exact ⟨_, [], rfl, Activation.meets_enter h hb hparams.symm, fun _ ha' => nomatch ha'⟩
    · cases hentry

/-- The same for a whole run, which may also be refused before its first step. -/
theorem Machine.run_safe (h : m.bytecode.Certified marks) {fuel : Nat} {s s' : State}
    {fault : Fault} (hrun : m.run fuel s = some (.error fault, s')) :
    fault.cause.kind.isStructural = false := by
  unfold Machine.run at hrun
  cases hentry : m.entry with
  | error cause =>
    rw [hentry] at hrun
    cases hrun
    unfold Machine.entry at hentry
    split at hentry
    · cases hentry
      rfl
    · split at hentry
      · cases hentry
      · cases hentry
        rfl
  | ok b =>
    rw [hentry] at hrun
    obtain ⟨⟨result, s₁⟩, hloop, hr⟩ := Option.map_eq_some_iff.1 hrun
    cases hr
    exact Machine.loop_safe h (Machine.begin_meets h hentry s) hloop

end Steps

/-! ## Compiled programs -/

/-- The table of a program and its bytecode agree on the number of parameters of every name. -/
theorem Program.arity?_of_lower {p : Program} {bc : Bytecode}
    (h : p.lower (.ofProgram p) = .ok bc) : (TypeTable.ofProgram p).arity? = bc.arity? := by
  funext name
  have hlookup := Program.get?_of_lower h name
  rw [TypeTable.arity?_ofProgram (Program.nodup_of_lower h), Bytecode.arity?]
  cases hf : p.function? name with
  | none =>
    rw [hf] at hlookup
    rw [hlookup]
    rfl
  | some f =>
    rw [hf] at hlookup
    obtain ⟨b, hlower, hb⟩ := hlookup
    rw [hb, Option.map_some, Option.map_some, FunDecl.params_of_lower hlower]

/-- A compiled program has marks that its functions fit, those that lowering leaves on each
function. -/
theorem Program.exists_certified {p : Program} {bc : Bytecode}
    (h : p.lower (.ofProgram p) = .ok bc) : ∃ marks, bc.Certified marks := by
  have hmarks : ∀ b, ∃ marks : Marking, b ∈ bc.blueprints →
      (∀ pc, (marks pc).isSome → pc < b.code.size) ∧ marks.Accepts 0 ⟨0, b.params⟩ ∧
        marks.Suits bc.arity? 0 b.code.toList := by
    intro b
    by_cases hb : b ∈ bc.blueprints
    · obtain ⟨f, _, hlower⟩ := Program.exists_of_mem_blueprints h hb
      obtain ⟨marks, hmarks⟩ := FunDecl.exists_marking hlower
      rw [Program.arity?_of_lower h] at hmarks
      exact ⟨marks, fun _ => hmarks⟩
    · exact ⟨fun _ => none, fun hb' => absurd hb' hb⟩
  -- One marking for each blueprint, put together into one function.
  choose marks hmarks using hmarks
  exact ⟨marks, fun b hb => (hmarks b hb).1, fun b hb => (hmarks b hb).2.1,
    fun b hb => (hmarks b hb).2.2⟩

/-- A program that looks for a divisor in a loop, and returns from within it. -/
def Program.searching : Program where
  types := []
  functions :=
    [⟨"main", "int", [],
      [.declare ⟨"n", none, .call "stoi" [.call "read" []]⟩,
        .forLoop "d" (.literal (.int 2)) .upTo (.path ["n"])
          [.ifChain (.branch
            (.binary .eq (.binary .mod (.path ["n"]) (.path ["d"])) (.literal (.int 0)))
            [.ret (some (.path ["d"]))] .done)]]⟩]

/-- Compiled programs keep the operand stack in order. Whatever the settings, the input and the heap
are, at every step of a run the innermost activation is at an instruction of a compiled function,
has exactly as many operands as are counted there before the run, and one operand if the instruction
is a return. So no run fails for want of an operand, a slot, an instruction, an operand of an
instruction, or a function. -/
theorem Program.stack_discipline {p : Program} {bc : Bytecode}
    (hlower : p.lower (.ofProgram p) = .ok bc) :
    (∀ b ∈ bc.blueprints, b.stackDepth bc 0 = 0) ∧
    ∀ (settings : Settings) (s₀ : State),
      (∀ b n s, Machine.entry ⟨bc, settings⟩ = .ok b →
        Machine.Steps ⟨bc, settings⟩ n (Machine.begin ⟨bc, settings⟩ s₀ b) s →
        ∃ a rest i, s.frames = a :: rest ∧ a.blueprint ∈ bc.blueprints ∧
          a.blueprint.code[a.pc]? = some i ∧
          a.stack.length = a.blueprint.stackDepth bc a.pc ∧
          (i.opcode = .ret → a.stack.length = 1)) ∧
      (∀ fuel fault s, Machine.run ⟨bc, settings⟩ fuel s₀ = some (.error fault, s) →
        fault.cause.kind ∉ [FaultKind.stackUnderflow, .invalidSlot, .malformedInstruction,
          .unknownFunction]) := by
  obtain ⟨marks, hcert⟩ := Program.exists_certified hlower
  refine ⟨fun _ _ => rfl, ?_⟩
  intro settings s₀
  constructor
  · intro b n s hentry hsteps
    -- Along the run every activation meets the mark of its instruction.
    have hmeets := hsteps.meets hcert (Machine.begin_meets hcert hentry s₀)
    obtain ⟨a, rest, hframes, ⟨hmem, k, hk, hdepth, _⟩, _⟩ := hmeets
    obtain ⟨i, hi, hfits⟩ := hcert.fits hmem hk
    refine ⟨a, rest, i, hframes, hmem, hi, ?_, ?_⟩
    · exact hdepth.trans (hcert.depth_eq hmem hk)
    · intro hret
      exact hdepth.trans (hfits.returned hret)
  · intro fuel fault s hrun hkind
    have hsafe := Machine.run_safe hcert hrun
    -- The four kinds are the structural ones, for which certified code never fails.
    have hstructural : fault.cause.kind.isStructural = true := by
      simp only [List.mem_cons, List.not_mem_nil, or_false] at hkind
      rcases hkind with hkind | hkind | hkind | hkind <;> rw [hkind] <;> rfl
    rw [hsafe] at hstructural
    cases hstructural

/-- No run of the search fails for a structural reason, whatever number it is given. -/
theorem Program.stack_discipline_searching :
    ∃ bc, searching.lower (.ofProgram searching) = .ok bc ∧
      ∀ (settings : Settings) (s₀ : State) (fuel : Nat) (fault : Fault) (s : State),
        Machine.run ⟨bc, settings⟩ fuel s₀ = some (.error fault, s) →
          fault.cause.kind ∉ [FaultKind.stackUnderflow, .invalidSlot, .malformedInstruction,
            .unknownFunction] := by
  have hlower : ∃ bc, searching.lower (.ofProgram searching) = .ok bc := ⟨_, rfl⟩
  obtain ⟨bc, hlower⟩ := hlower
  exact ⟨bc, hlower, fun settings s₀ => ((stack_discipline hlower).2 settings s₀).2⟩

end RecordMachine
