import Mathlib.Algebra.BigOperators.Group.Finset.Piecewise
import Mathlib.Data.Fintype.OfMap
import RecordMachine.Proofs.Lowering.Blueprints
import RecordMachine.Proofs.Profile.Depths

/-!
# Profiles are exact

A profile keeps three counts apart: one of all instructions, one for each opcode and one for each
place of the program. They are told of the same states, and a place determines its opcode, because
an activation always executes the code that the program has under its name (`State.RunsIn`). So the
counts add up to each other (`Profile.Exact`).
-/

namespace RecordMachine

instance : Fintype Opcode := Fintype.ofList Opcode.all (by intro op; cases op <;> decide)

/-! ## Places of a program -/

namespace Bytecode

/-- The opcode at a place: that of the instruction with this index in the function of this name. -/
def opcodeAt? (bc : Bytecode) (place : String × Nat) : Option Opcode :=
  (bc.get? place.1).bind fun b => b.code[place.2]?.map Instruction.opcode

def placeList (bc : Bytecode) : List (String × Nat) :=
  bc.blueprints.flatMap fun b => (List.range b.code.size).map fun pc => (b.name, pc)

/-- All places of a program: its functions with the indices of their instructions. -/
def places (bc : Bytecode) : Finset (String × Nat) := bc.placeList.toFinset

/-- Only a place of the program holds an opcode. -/
theorem mem_places_of_opcodeAt? {bc : Bytecode} {place : String × Nat} {op : Opcode}
    (hop : bc.opcodeAt? place = some op) : place ∈ bc.places := by
  obtain ⟨b, hb, hcode⟩ := Option.bind_eq_some_iff.1 hop
  obtain ⟨i, hi, _⟩ := Option.map_eq_some_iff.1 hcode
  obtain ⟨hmem, hname⟩ := mem_of_get? hb
  have hlt : place.2 < b.code.size := (Array.getElem?_eq_some_iff.1 hi).1
  refine List.mem_toFinset.2 (List.mem_flatMap.2 ⟨b, hmem, List.mem_map.2 ⟨place.2, ?_, ?_⟩⟩)
  · exact List.mem_range.2 hlt
  · rw [hname]

end Bytecode

/-- Every activation executes the code that the program has under its name. -/
def State.RunsIn (bc : Bytecode) (s : State) : Prop :=
  ∀ a ∈ s.frames, bc.get? a.blueprint.name = some a.blueprint

namespace State

variable {bc : Bytecode} {s : State} {i : Instruction}

/-- The place of the next instruction holds its opcode. -/
theorem RunsIn.place (hs : s.RunsIn bc) (hi : s.instruction? = some i) :
    ∃ place, s.place? = some place ∧ bc.opcodeAt? place = some i.opcode := by
  obtain ⟨a, rest, hframes, hcode⟩ := frames_of_instruction? hi
  refine ⟨_, place?_eq hframes, ?_⟩
  have hget : bc.get? a.blueprint.name = some a.blueprint := hs a (by simp [hframes])
  simp [Bytecode.opcodeAt?, hget, hcode]

end State

namespace Machine

variable {m : Machine} {s s' : State}

/-- A run starts in the function that the program has under the name of the entry point. -/
theorem runsIn_begin {b : Blueprint} (hentry : m.entry = .ok b) (s : State) :
    (m.begin s b).RunsIn m.bytecode := by
  have hget := get?_of_entry hentry
  intro a ha
  rw [List.mem_singleton.1 ha]
  show m.bytecode.get? b.name = some b
  rw [(Bytecode.mem_of_get? hget).2]
  exact hget

/-- A call takes the code of the callee from the program, and no other step changes whose code is
executed. -/
theorem step_runsIn (hs : s.RunsIn m.bytecode) (hstep : m.step s = .next s') :
    s'.RunsIn m.bytecode := by
  obtain ⟨a, rest, i, hframes, _, hexec⟩ := executes_of_next hstep
  unfold State.RunsIn at hs ⊢
  rw [hframes] at hs
  obtain ⟨ha, hrest⟩ := List.forall_mem_cons.1 hs
  cases hexec with
  | effect heffect hframes' _ =>
    rw [hframes']
    refine List.forall_mem_cons.2 ⟨?_, hrest⟩
    rw [heffect.blueprint_eq]
    exact ha
  -- The callee is found by a name, and that is the name of its own blueprint.
  | @call name callee _ _ _ hcallee _ hframes' _ =>
    rw [hframes']
    refine List.forall_mem_cons.2 ⟨?_, List.forall_mem_cons.2 ⟨ha, hrest⟩⟩
    show m.bytecode.get? callee.name = some callee
    rw [(Bytecode.mem_of_get? hcallee).2]
    exact hcallee
  | ret _ hothers _ hframes' _ =>
    subst hothers
    rw [hframes']
    exact List.forall_mem_cons.2 (List.forall_mem_cons.1 hrest)

end Machine

/-! ## Counts that add up -/

/-- If each item has one of the keys, counting the items key by key counts all of them. -/
theorem sum_countP_eq_length {α κ : Type} [DecidableEq κ] {keys : Finset κ} {key? : α → Option κ}
    {items : List α} (hkeys : ∀ x ∈ items, ∃ k ∈ keys, key? x = some k) :
    ∑ k ∈ keys, items.countP (fun x => key? x = some k) = items.length := by
  induction items with
  | nil => simp
  | cons x items ih =>
    obtain ⟨⟨k, hk, hx⟩, hitems⟩ := List.forall_mem_cons.1 hkeys
    simp [List.countP_cons, Finset.sum_add_distrib, ih hitems, hx, hk]

/-- What an exact profile of the executed states `es` holds, where `bc` is the program. -/
structure Profile.Exact (p : Profile) (bc : Bytecode) (es : List State) : Prop where
  total : p.total = es.length
  opcode (op : Opcode) : p.countOf op = es.countP fun e => e.opcode? = some op
  place (f : String) (pc : Nat) : p.countAt f pc = es.countP fun e => e.place? = some (f, pc)
  opcodes : p.total = ∑ op, p.countOf op
  places : p.total = ∑ l ∈ bc.places, p.countAt l.1 l.2
  elsewhere (f : String) (pc : Nat) : (f, pc) ∉ bc.places → p.countAt f pc = 0
  holding (op : Opcode) :
    p.countOf op = ∑ l ∈ bc.places with bc.opcodeAt? l = some op, p.countAt l.1 l.2

/-- The executed states of a program that added to a fresh profile make it exact. -/
theorem Profile.Adds.exact {p : Profile} {bc : Bytecode} {es : List State}
    (hadds : Profile.fresh.Adds es p)
    (hes : ∀ e ∈ es, e.RunsIn bc ∧ ∃ i, e.instruction? = some i) : p.Exact bc es := by
  -- The three counts are those of the list, since a fresh profile starts from zero.
  have htotal : p.total = es.length := by
    rw [hadds.total]
    exact Nat.zero_add _
  have hopcode (op : Opcode) : p.countOf op = es.countP fun e => e.opcode? = some op := by
    rw [hadds.opcode]
    exact Nat.zero_add _
  have hplace (f : String) (pc : Nat) :
      p.countAt f pc = es.countP fun e => e.place? = some (f, pc) := by
    rw [hadds.place]
    exact Nat.zero_add _
  -- An executed state is at a place of the program, and this place holds the opcode that it
  -- executes.
  have hheld : ∀ e ∈ es, ∃ l ∈ bc.places, e.place? = some l ∧ bc.opcodeAt? l = e.opcode? := by
    intro e he
    obtain ⟨hruns, i, hi⟩ := hes e he
    obtain ⟨l, hl, hop⟩ := hruns.place hi
    refine ⟨l, Bytecode.mem_places_of_opcodeAt? hop, hl, ?_⟩
    rw [hop, State.opcode?_eq hi]
  refine ⟨htotal, hopcode, hplace, ?_, ?_, ?_, ?_⟩
  · simp only [htotal, hopcode]
    refine (sum_countP_eq_length fun e he => ?_).symm
    obtain ⟨_, i, hi⟩ := hes e he
    exact ⟨i.opcode, Finset.mem_univ _, State.opcode?_eq hi⟩
  · simp only [htotal, hplace]
    refine (sum_countP_eq_length fun e he => ?_).symm
    obtain ⟨l, hl, hat, _⟩ := hheld e he
    exact ⟨l, hl, hat⟩
  · intro f pc hout
    rw [hplace, List.countP_eq_zero]
    intro e he hat
    obtain ⟨l, hl, hat', _⟩ := hheld e he
    rw [of_decide_eq_true hat] at hat'
    cases hat'
    exact hout hl
  · intro op
    simp only [hopcode, hplace]
    -- Only the states that execute the opcode are at a place that holds it.
    have hsame : ∀ l ∈ bc.places.filter (fun l => bc.opcodeAt? l = some op),
        es.countP (fun e => e.place? = some l) =
          (es.filter fun e => e.opcode? = some op).countP fun e => e.place? = some l := by
      intro l hl
      rw [List.countP_filter]
      refine List.countP_congr fun e he => ?_
      obtain ⟨l', _, hat, hop⟩ := hheld e he
      have hholds : bc.opcodeAt? l = some op := (Finset.mem_filter.1 hl).2
      simp only [hat, Option.some.injEq, decide_eq_true_eq, Bool.and_eq_true]
      constructor
      · rintro rfl
        exact ⟨rfl, hop.symm.trans hholds⟩
      · exact fun h => h.1
    rw [Finset.sum_congr rfl hsame, sum_countP_eq_length, List.countP_eq_length_filter]
    intro e he
    obtain ⟨he, hop⟩ := List.mem_filter.1 he
    obtain ⟨l, hl, hat, hheld⟩ := hheld e he
    exact ⟨l, Finset.mem_filter.2 ⟨hl, hheld.trans (of_decide_eq_true hop)⟩, hat⟩

namespace Machine

/-! ## Runs -/

/-- Profiles are exact. Take any machine that does not show its instructions, and any state with a
fresh profile. At every moment of a run from there, also if an instruction has failed, the profile
counts the instructions executed so far: in total, by opcode and by place, where the counts of the
opcodes and those of the places of the program add up to the total, no other place has a count, and
the count of an opcode is that of the places that hold it. The same is true at the end of a run,
also of one that is refused. If a run ends with a value, it has returned once more than it has
called, and the depths of the profile are the greatest number of active functions and the greatest
number of operands that any activation has had. -/
theorem profile_exact (m : Machine) (htrace : m.settings.trace = false) (s : State)
    (hfresh : s.profile = some .fresh) :
    (∀ b, m.entry = .ok b → ∀ n, ∃ p, (m.advance n (m.begin s b)).state.profile = some p ∧
      p.Exact m.bytecode (m.executed n (m.begin s b))) ∧
    (∀ fuel result s', m.run fuel s = some (result, s') → ∃ p, s'.profile = some p ∧
      p.Exact m.bytecode (m.executions fuel s) ∧
      ∀ v, result = .ok v → p.countOf .ret = p.countOf .call + 1 ∧
        ∃ b, m.entry = .ok b ∧ IsGreatest (m.callDepths (m.begin s b)) p.maxCallDepth ∧
          IsGreatest (m.stackDepths (m.begin s b)) p.maxStackDepth) := by
  -- The invariant `State.RunsIn` holds at the start and along the run, which is what the counts
  -- need.
  have hexact (b : Blueprint) (hentry : m.entry = .ok b) (n : Nat) (p : Profile)
      (hadds : Profile.fresh.Adds (m.executed n (m.begin s b)) p) :
      p.Exact m.bytecode (m.executed n (m.begin s b)) := by
    refine hadds.exact fun e he => ⟨?_, instruction?_of_executed he⟩
    exact executed_invariant (fun _ _ => step_runsIn) n (runsIn_begin hentry s) e he
  refine ⟨?_, ?_⟩
  · intro b hentry n
    obtain ⟨p, hp, hadds⟩ := advance_adds (s := m.begin s b) htrace n hfresh rfl
    exact ⟨p, hp, hexact b hentry n p hadds⟩
  · intro fuel result s' hrun
    cases hentry : m.entry with
    | error cause =>
      rw [run_of_refused hentry] at hrun
      cases hrun
      refine ⟨.fresh, hfresh, ?_, ?_⟩
      · unfold executions
        rw [hentry]
        exact (Profile.adds_nil rfl).exact (List.forall_mem_nil _)
      · rintro v ⟨⟩
    | ok b =>
      obtain ⟨ended, hanswer, rfl⟩ := advance_of_run hentry hrun
      obtain ⟨p, hp, hadds⟩ := advance_adds (s := m.begin s b) htrace fuel hfresh rfl
      have hcounts := hexact b hentry fuel p hadds
      rw [Step.state_of_answer? hanswer] at hp
      have hexecutions : m.executions fuel s = m.executed fuel (m.begin s b) := by
        unfold executions
        rw [hentry]
      refine ⟨p, by rw [profile_finish, hp], hexecutions ▸ hcounts, ?_⟩
      rintro v rfl
      -- A run with a value has not failed, so that its depths are those of a finished one.
      have hdone : m.advance fuel (m.begin s b) = .done v ended := by
        cases hend : m.advance fuel (m.begin s b) with
        | next _ | failed _ _ =>
          rw [hend] at hanswer
          cases hanswer
        | done _ _ =>
          rw [hend] at hanswer
          cases hanswer
          rfl
      refine ⟨?_, b, rfl, ?_, ?_⟩
      · rw [hcounts.opcode, hcounts.opcode, rets_of_done hdone]
        exact Nat.add_comm _ _
      · rw [hadds.calls]
        exact isGreatest_callDepths hdone
      · rw [hadds.stack]
        exact isGreatest_stackDepths hdone rfl

/-- A function that hands two of its operands to another one and keeps the third. -/
def adding : Machine where
  bytecode := .ofList
    [⟨"main", 0, #[.push (.int 1), .push (.int 2), .push (.int 3), .call "sum", .plain .add,
        .plain .ret]⟩,
      ⟨"sum", 2, #[.load 0, .load 1, .plain .add, .plain .ret]⟩]

/-- The run executes ten instructions. The outer function has three operands before its call, of
which it keeps one, and there are two returns for the one call. -/
theorem profile_exact_adding :
    adding.settings.trace = false ∧ (adding.initial {} (some .fresh)).profile = some .fresh ∧
    ∃ last p b, adding.run 10 (adding.initial {} (some .fresh)) = some (.ok (.int 6), last) ∧
      last.profile = some p ∧
      p.Exact adding.bytecode (adding.executions 10 (adding.initial {} (some .fresh))) ∧
      p.total = 10 ∧ p.countOf .ret = 2 ∧ p.countOf .call = 1 ∧ p.maxCallDepth = 2 ∧
      p.maxStackDepth = 3 ∧ adding.entry = .ok b ∧
      IsGreatest (adding.callDepths (adding.begin (adding.initial {} (some .fresh)) b))
        p.maxCallDepth ∧
      IsGreatest (adding.stackDepths (adding.begin (adding.initial {} (some .fresh)) b))
        p.maxStackDepth := by
  obtain ⟨last, hrun, hcounts⟩ : ∃ last,
      adding.run 10 (adding.initial {} (some .fresh)) = some (.ok (.int 6), last) ∧
      (last.profile.map fun p =>
          [p.total, p.countOf .ret, p.countOf .call, p.maxCallDepth, p.maxStackDepth])
        = some [10, 2, 1, 2, 3] := ⟨_, rfl, rfl⟩
  obtain ⟨p, hp, hexact, hreturned⟩ := (profile_exact adding rfl _ rfl).2 10 _ last hrun
  obtain ⟨_, b, hentry, hcalls, hstacks⟩ := hreturned _ rfl
  rw [hp] at hcounts
  simp only [Option.map_some, Option.some.injEq, List.cons.injEq, and_true] at hcounts
  obtain ⟨htotal, hret, hcall, hcallDepth, hstackDepth⟩ := hcounts
  exact ⟨rfl, rfl, last, p, b, hrun, hp, hexact, htotal, hret, hcall, hcallDepth, hstackDepth,
    hentry, hcalls, hstacks⟩

end Machine

end RecordMachine
