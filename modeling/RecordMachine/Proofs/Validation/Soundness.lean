import RecordMachine.Proofs.Backpatching.Validity
import RecordMachine.Proofs.Discipline.Execution
import RecordMachine.Proofs.Machine.Trace

/-!
# What validation guarantees

Validation looks at one instruction at a time: at its operand, at its jump target and at the
function that it calls. The machine asks for the same things when it executes the instruction, so
that a program without defects never lacks them (`Machine.step_failed_of_isValid`). The index of an
activation changes by going on to the next instruction or by a jump, and therefore never gets beyond
the end of the code (`Machine.step_inBounds`). All this needs no discipline of the operand stack: it
holds for bytecode that no compiler has made.
-/

namespace RecordMachine

/-! ## Validated instructions -/

/-- An instruction with which nothing is wrong is well-formed, and calls only functions of the
program. -/
theorem Instruction.wellFormed_of_problems {bc : Bytecode} {length : Nat} {i : Instruction}
    (h : i.problems bc length = []) : i.WellFormed bc.arity? length := by
  unfold problems at h
  dsimp only at h
  split at h
  · next hoperand =>
    obtain ⟨hjump, hcall⟩ := List.append_eq_nil_iff.1 h
    -- The three kinds of problems are the three parts of being well-formed.
    refine ⟨hoperand, ?_, ?_⟩
    · intro target htarget
      unfold jumpProblems at hjump
      simp only [htarget] at hjump
      split at hjump
      · cases hjump
      · split at hjump
        · cases hjump
        · omega
    · intro name hop hname
      unfold callProblems at hcall
      simp only [hop, hname] at hcall
      split at hcall
      · next hcontains =>
        unfold Bytecode.arity?
        rw [Option.isSome_map, ← Bytecode.contains_eq_isSome]
        exact hcontains
      · cases hcall
  · cases h

/-- Every instruction of a valid program is well-formed. -/
theorem Bytecode.wellFormed_of_isValid {bc : Bytecode} (hvalid : bc.isValid = true) {b : Blueprint}
    (hb : b ∈ bc.blueprints) {pc : Nat} {i : Instruction} (hi : b.code[pc]? = some i) :
    i.WellFormed bc.arity? b.code.size := by
  apply Instruction.wellFormed_of_problems
  have hnone : bc.defects = [] := List.isEmpty_iff.1 hvalid
  have hdefects : b.defects bc = [] := List.flatMap_eq_nil_iff.1 hnone b hb
  have hmem : (i, pc) ∈ b.code.toList.zipIdx := by
    rw [List.mem_zipIdx_iff_getElem?, Array.getElem?_toList]
    exact hi
  exact List.map_eq_nil_iff.1 (List.flatMap_eq_nil_iff.1 hdefects (i, pc) hmem)

/-! ## Activations within their code -/

/-- The activation is one of a function of the program, at an instruction or right behind the
last. -/
structure Activation.InBounds (bc : Bytecode) (a : Activation) : Prop where
  blueprint : a.blueprint ∈ bc.blueprints
  pc : a.pc ≤ a.blueprint.code.size

/-- There is an activation, and all of them are within their code. -/
def State.InBounds (bc : Bytecode) (s : State) : Prop :=
  s.frames ≠ [] ∧ ∀ a ∈ s.frames, a.InBounds bc

/-- Where an instruction is, the code has not ended. -/
theorem lt_size_of_getElem? {code : Array Instruction} {pc : Nat} {i : Instruction}
    (hi : code[pc]? = some i) : pc < code.size :=
  (Array.getElem?_eq_some_iff.1 hi).1

section Steps

variable {m : Machine}

/-- A function that is entered is at its first instruction, or right behind its code if it has
none. -/
theorem Activation.inBounds_enter {bc : Bytecode} {name : String} {b : Blueprint}
    (hb : bc.get? name = some b) (args : List Value) : (Activation.enter b args).InBounds bc :=
  ⟨(Bytecode.mem_of_get? hb).1, Nat.zero_le _⟩

theorem Activation.InBounds.push {bc : Bytecode} {a : Activation} (h : a.InBounds bc) (v : Value) :
    (a.push v).InBounds bc :=
  ⟨h.blueprint, h.pc⟩

/-- Going on from an instruction leads at most right behind the last. -/
theorem Activation.InBounds.advance {bc : Bytecode} {a : Activation} (h : a.InBounds bc)
    {i : Instruction} (hi : a.blueprint.code[a.pc]? = some i) (stack : List Value) :
    Activation.InBounds bc { a with pc := a.pc + 1, stack } :=
  ⟨h.blueprint, lt_size_of_getElem? hi⟩

/-- Where an instruction of validated code goes on is within the code. -/
theorem Activation.InBounds.effect {bc : Bytecode} (hvalid : bc.isValid = true) {a top : Activation}
    (h : a.InBounds bc) {i : Instruction} (hi : a.blueprint.code[a.pc]? = some i)
    {heap heap' : Heap}
    (heffect : i.Effect { a with pc := a.pc + 1 } heap top heap') : top.InBounds bc := by
  have hblueprint : top.blueprint = a.blueprint := heffect.blueprint_eq
  refine ⟨?_, ?_⟩
  · rw [hblueprint]
    exact h.blueprint
  · rw [hblueprint]
    -- The index is the next one, or the target of a jump, which validation has found to be in the
    -- code.
    rcases heffect.pc_eq with hpc | htarget
    · rw [hpc]
      exact lt_size_of_getElem? hi
    · have hlt := (Bytecode.wellFormed_of_isValid hvalid h.blueprint hi).target _ htarget
      omega

/-- A step keeps all activations within their code. -/
theorem Machine.step_inBounds (hvalid : m.bytecode.isValid = true) {s s' : State}
    (hs : s.InBounds m.bytecode) (hstep : m.step s = .next s') : s'.InBounds m.bytecode := by
  obtain ⟨a, rest, i, hframes, hi, hexec⟩ := Machine.executes_of_next hstep
  have hall : ∀ a' ∈ a :: rest, a'.InBounds m.bytecode := hframes ▸ hs.2
  have ha := hall a List.mem_cons_self
  have hrest : ∀ a' ∈ rest, a'.InBounds m.bytecode :=
    fun a' ha' => hall a' (List.mem_cons_of_mem a ha')
  unfold State.InBounds
  -- The innermost activation goes on within its code, a new one starts, or an old one gets a value.
  cases hexec with
  | effect heffect hframes' _ =>
    rw [hframes']
    exact ⟨nofun, List.forall_mem_cons.2 ⟨ha.effect hvalid hi heffect, hrest⟩⟩
  | call _ _ hcallee _ hframes' _ =>
    rw [hframes']
    refine ⟨nofun, List.forall_mem_cons.2 ⟨Activation.inBounds_enter hcallee _, ?_⟩⟩
    exact List.forall_mem_cons.2 ⟨ha.advance hi _, hrest⟩
  | ret _ hcaller _ hframes' _ =>
    rw [hframes']
    subst hcaller
    obtain ⟨hcaller, hothers⟩ := List.forall_mem_cons.1 hrest
    exact ⟨nofun, List.forall_mem_cons.2 ⟨hcaller.push _, hothers⟩⟩

/-- With these activations left, the fault is none of those that validation excludes: the function
of a call is known, and the only malformed thing is that the innermost activation is at the end of
its code. -/
def Fault.Admissible (frames : List Activation) (fault : Fault) : Prop :=
  fault.cause.kind ≠ .unknownFunction ∧ fault.cause ≠ .noActivation ∧
    (fault.cause.kind = .malformedInstruction →
      ∃ a rest, frames = a :: rest ∧ a.pc = a.blueprint.code.size ∧
        fault = ⟨.fellOff a.blueprint.name a.pc, none⟩)

/-- A fault of any other category is admissible, whatever is active. -/
theorem Fault.admissible_of_kind {frames : List Activation} {fault : Fault}
    (hknown : fault.cause.kind ≠ .unknownFunction)
    (hformed : fault.cause.kind ≠ .malformedInstruction) : fault.Admissible frames := by
  refine ⟨hknown, ?_, fun h => absurd h hformed⟩
  intro hnone
  rw [hnone] at hformed
  exact hformed rfl

/-- What an instruction of validated code blames when it fails is nothing about the code. -/
theorem Instruction.Blames.kind_ne {i : Instruction} {a : Activation} {heap : Heap} {cause : Cause}
    (hblames : i.Blames a heap cause)
    (hoperand : i.operand.map Operand.kind = i.opcode.operandKind) :
    cause.kind ≠ .unknownFunction ∧ cause.kind ≠ .malformedInstruction := by
  cases hblames with
  | operand hmismatch => exact absurd hoperand hmismatch
  | stack | slot _ | field | exhausted => exact ⟨nofun, nofun⟩
  | values hkind =>
    constructor <;>
      · intro h
        rw [h] at hkind
        cases hkind
  -- An id that is no object is about the heap.
  | object _ hobject =>
    unfold Heap.object at hobject
    split at hobject
    · cases hobject
      exact ⟨nofun, nofun⟩
    · split at hobject <;> cases hobject <;> exact ⟨nofun, nofun⟩
  | console hkind =>
    rw [hkind]
    exact ⟨nofun, nofun⟩

/-- A step that fails leaves all activations within their code. -/
theorem Machine.step_failed_inBounds {s s' : State} {fault : Fault} (hs : s.InBounds m.bytecode)
    (hstep : m.step s = .failed fault s') : ∀ a ∈ s'.frames, a.InBounds m.bytecode := by
  obtain ⟨_, hsame | ⟨a, rest, i, left, hframes, hi, _, hframes'⟩⟩ := Machine.left_of_failed hstep
  · rw [hsame]
    exact hs.2
  · rw [hframes']
    obtain ⟨ha, hrest⟩ := List.forall_mem_cons.1 (hframes ▸ hs.2)
    exact List.forall_mem_cons.2 ⟨ha.advance hi left, hrest⟩

/-- A step of validated code fails for nothing that validation excludes, neither with the
activations that it found nor with those that it leaves. -/
theorem Machine.step_failed_of_isValid (hvalid : m.bytecode.isValid = true) {s s' : State}
    {fault : Fault} (hs : s.InBounds m.bytecode) (hstep : m.step s = .failed fault s') :
    fault.Admissible s.frames ∧ fault.Admissible s'.frames := by
  -- Most faults are admissible by their category, whatever the activations are.
  have hkinds : fault.cause.kind ≠ .unknownFunction →
      fault.cause.kind ≠ .malformedInstruction →
      fault.Admissible s.frames ∧ fault.Admissible s'.frames :=
    fun hknown hgood =>
      ⟨Fault.admissible_of_kind hknown hgood, Fault.admissible_of_kind hknown hgood⟩
  rcases m.step_cases s with
    ⟨hnone, _⟩ | ⟨a, rest, hframes, hi, h⟩ | ⟨a, rest, i, hframes, hi, hexec⟩
  · exact absurd hnone hs.1
  · cases h.symm.trans hstep
    have ha := hs.2 a (hframes ▸ List.mem_cons_self)
    -- Where no instruction is to be fetched, the activation is behind its code, and it cannot be
    -- further.
    have hend : a.pc = a.blueprint.code.size :=
      Nat.le_antisymm ha.pc (Array.getElem?_eq_none_iff.1 hi)
    have hadmissible : Fault.Admissible s.frames ⟨.fellOff a.blueprint.name a.pc, none⟩ := by
      refine ⟨?_, ?_, fun _ => ⟨a, rest, hframes, hend, rfl⟩⟩ <;> rintro ⟨⟩
    exact ⟨hadmissible, hadmissible⟩
  · have ha := hs.2 a (hframes ▸ List.mem_cons_self)
    have hformed := Bytecode.wellFormed_of_isValid hvalid ha.blueprint hi
    rw [hstep] at hexec
    cases hexec with
    | fails hblames _ _ _ =>
      obtain ⟨hknown, hgood⟩ := hblames.kind_ne hformed.operand
      exact hkinds hknown hgood
    | refused hop hname hcause _ _ =>
      cases hcause with
      | unknown hcallee =>
        -- A callee that is not there is one that validation would have reported.
        have hsome := hformed.callee _ hop (Operand.eq_of_name? hname)
        rw [Bytecode.arity?, hcallee] at hsome
        cases hsome
      | limit _ | arguments _ _ => refine hkinds ?_ ?_ <;> rintro ⟨⟩
    | unwritten _ hkind _ _ =>
      refine hkinds ?_ ?_ <;>
        · rw [hkind]
          rintro ⟨⟩

/-- A run starts with one activation, at its first instruction. -/
theorem Machine.begin_inBounds {b : Blueprint} (hentry : m.entry = .ok b) (s : State) :
    (m.begin s b).InBounds m.bytecode :=
  ⟨nofun, List.forall_mem_singleton.2 (Activation.inBounds_enter (Machine.get?_of_entry hentry) [])⟩

/-- All activations of a run stay within their code, step by step. -/
theorem Machine.Trace.inBounds (hvalid : m.bytecode.isValid = true) {s s' : State}
    {is : List Instruction} (htrace : m.Trace s is s') (hs : s.InBounds m.bytecode) :
    s'.InBounds m.bytecode :=
  htrace.invariant (fun _ _ hs hstep => Machine.step_inBounds hvalid hs hstep) hs

end Steps

/-! ## Runs -/

/-- A program that was not made by a compiler. It passes validation, although its first function
never returns: it asks the other one for a truth value, ignores it and comes to its end. -/
def Bytecode.unreturning : Bytecode :=
  .ofList
    [⟨"main", 0, #[.call "flag", .jumpIfFalse 0, .plain .nop]⟩,
      ⟨"flag", 0, #[.push (.bool true), .plain .ret]⟩]

/-- Validation is sound for the machine. Whatever the settings, the heap and the input are, at every
step of a run of validated bytecode there is an activation, and all of them are within their code or
right behind it. No step fails because a function is unknown or because nothing is active. A step
fails because of something malformed only if the innermost activation is right behind its code, and
then it says so. -/
theorem Machine.sound_of_isValid {m : Machine} (hvalid : m.bytecode.isValid = true) (s₀ : State) :
    (∀ b is s, m.entry = .ok b → m.Trace (m.begin s₀ b) is s →
      s.frames ≠ [] ∧ (∀ a ∈ s.frames, a.pc ≤ a.blueprint.code.size) ∧
      ∀ fault s', m.step s = .failed fault s' →
        (∀ a ∈ s'.frames, a.pc ≤ a.blueprint.code.size) ∧ fault.Admissible s.frames) ∧
    (∀ fuel fault s, m.run fuel s₀ = some (.error fault, s) → fault.Admissible s.frames) := by
  constructor
  · intro b is s hentry htrace
    have hs := htrace.inBounds hvalid (Machine.begin_inBounds hentry s₀)
    refine ⟨hs.1, fun a ha => (hs.2 a ha).pc, ?_⟩
    intro fault s' hstep
    exact ⟨fun a ha => (Machine.step_failed_inBounds hs hstep a ha).pc,
      (Machine.step_failed_of_isValid hvalid hs hstep).1⟩
  · intro fuel fault s hrun
    -- A run is refused before its first step, or it fails in the step after a trace.
    rcases Machine.run_cases hrun with
      ⟨cause, hentry, hresult, _⟩ | ⟨b, is, last, ended, hentry, htrace, hanswer, rfl⟩
    · have hkind := Machine.kind_of_entry_error hentry
      cases hresult
      exact Fault.admissible_of_kind (hkind ▸ nofun) (hkind ▸ nofun)
    · have hs := htrace.inBounds hvalid (Machine.begin_inBounds hentry s₀)
      cases hstep : m.step last with
      | next _ | done _ _ =>
        rw [hstep] at hanswer
        cases hanswer
      | failed fault' ended' =>
        rw [hstep] at hanswer
        cases hanswer
        exact (Machine.step_failed_of_isValid hvalid hs hstep).2

/-- The program that does not return passes validation, comes to its end, and can fail for nothing
else that is malformed, whatever the settings. -/
theorem Machine.sound_of_isValid_unreturning :
    Bytecode.unreturning.isValid = true ∧
    (∃ s, Machine.run ⟨Bytecode.unreturning, {}⟩ 6 (Machine.initial ⟨Bytecode.unreturning, {}⟩ {}) =
      some (.error ⟨.fellOff "main" 3, none⟩, s)) ∧
    ∀ settings s₀ fuel fault s,
      Machine.run ⟨Bytecode.unreturning, settings⟩ fuel s₀ = some (.error fault, s) →
        fault.Admissible s.frames := by
  have hvalid : Bytecode.unreturning.isValid = true := by decide
  refine ⟨hvalid, ⟨_, rfl⟩, ?_⟩
  intro settings s₀ fuel fault s hrun
  have hmachine : (Machine.mk Bytecode.unreturning settings).bytecode.isValid = true := hvalid
  exact (sound_of_isValid hmachine s₀).2 fuel fault s hrun

end RecordMachine
