import RecordMachine.Proofs.Correspondence.Renaming
import RecordMachine.Proofs.Heap.Objects
import RecordMachine.Proofs.Machine.Output

/-!
# Tracing and profiling

Whether a machine shows its instructions, and whether it counts them, has no influence on what they
do, as long as nothing goes wrong with the console. Machines that differ only in this correspond to
each other with all values, heaps and activations the same (`Correspondence.observing`), and their
profiles are the same if they were at the start.

What is printed does differ, by the text that shows the instruction, once for each executed
instruction and in front of what the instruction itself prints (`Machine.observation_transparent`).
-/

namespace RecordMachine

/-- The machine, showing its instructions or not. -/
def Machine.traced (m : Machine) (trace : Bool) : Machine :=
  { m with settings := { m.settings with trace } }

/-- The state with a profile of its own, or with none. -/
def State.profiled (s : State) (profile : Option Profile) : State := { s with profile }

/-! ## The correspondence -/

theorem Record.Related.refl (r : Record) : r.Related Eq r := by
  unfold Record.Related
  exact List.forall₂_same.2 fun _ _ => ⟨rfl, rfl⟩

theorem Value.eq_rename_id {v w : Value} (h : v = w) : w = v.rename id := by
  rw [Value.rename_id, h]

/-- Records with equal fields are equal: nothing is renamed. -/
theorem Record.Related.eq {r r' : Record} (h : r.Related Eq r') : r' = r := by
  rw [h.eq_rename fun _ _ => Value.eq_rename_id, Record.rename_id]

theorem Cause.Related.refl (c : Cause) : c.Related Eq c := by
  cases c with
  | noObject id => exact .noObject rfl
  | freedObject id => exact .freedObject rfl
  | unknownField id field => exact .unknownField rfl field
  | _ => exact .same rfl

namespace Correspondence

/-- All is the same, but for what has been printed. The profiles are the same if `p` and `p'` are,
which they started as. -/
def observing (p p' : Option Profile) : Correspondence where
  value := Eq
  heap := Eq
  console := Console.Matches
  profile q q' := p' = p → q' = q
  uneven := False
  plain _ _ := rfl
  twin _ _ h := .inl h.symm
  same := by
    rintro v _ v' _ rfl rfl
    rfl
  alloc := by
    rintro h _ names rfl
    cases halloc : h.alloc names with
    | ok made => exact .inl ⟨made.1, made.1, made.2, made.2, rfl, rfl, rfl, rfl⟩
    | error cause =>
      cases Heap.alloc_eq_error halloc
      exact .inr (.inl ⟨rfl, rfl⟩)
  object := by
    rintro h _ i _ rfl ⟨⟩
    cases h.object i with
    | ok r => exact .ok (.refl r)
    | error cause => exact .error (.refl cause)
  put := by
    rintro h _ i _ cell cell' rfl ⟨⟩ hcell
    cases hcell with
    | none => rfl
    | some hr =>
      rw [hr.eq]
  print := by
    rintro c c' v _ hc rfl
    exact hc.print v.text v.text
  readLine _ _ hc := hc.readLine
  observe _ _ _ hq hp := by rw [hq hp]

variable {p p' : Option Profile}

/-- Nothing is renamed where all values are the same. -/
theorem observing_renames : (observing p p').Renames id := fun _ _ => Value.eq_rename_id

/-- Showing an instruction or not, the machines stay side by side. -/
theorem observing_machines (m : Machine) (t t' : Bool) :
    (observing p p').Machines (m.traced t) (m.traced t') where
  bytecode := rfl
  entryPoint := rfl
  maxCallDepth := rfl
  code _ _ _ _ _ _ _ _ := rfl
  shows := by
    intro s s' a a' i hs _
    obtain ⟨c, log, hshow, hc⟩ :=
      Machine.showInstruction_of_reliable (m.traced t) hs.console.left a i
    obtain ⟨c', log', hshow', hc'⟩ :=
      Machine.showInstruction_of_reliable (m.traced t') hs.console.right a' i
    exact ⟨_, _, hshow, hshow', hs.frames, hs.heap, hs.console.takes hc hc', hs.profile⟩

end Correspondence

/-! ## Runs -/

namespace Machine

open Correspondence

/-- What a run that has ended has printed. -/
theorem output_run {m : Machine} {s last : State} {fuel : Nat} {result : Except Fault Value}
    (hs : s.console.Reliable) (hrun : m.run fuel s = some (result, last)) :
    last.console.output = s.console.output ++ String.join ((m.executions fuel s).map m.prints) := by
  unfold executions
  cases hentry : m.entry with
  | error cause =>
    rw [run_of_refused hentry] at hrun
    cases hrun
    exact String.append_empty.symm
  | ok b =>
    obtain ⟨ended, hanswer, rfl⟩ := advance_of_run hentry hrun
    have houtput := m.output_advance fuel (s := m.begin s b) hs
    rw [Step.state_of_answer? hanswer] at houtput
    rw [console_finish]
    exact houtput

/-- The states in which instructions are executed are the same, whether these are shown and counted
or not. -/
theorem executions_observed (m : Machine) {s : State} (hs : s.console.Reliable) (fuel : Nat)
    (t t' : Bool) (p p' : Option Profile) :
    List.Forall₂ (fun e e' => e'.frames = e.frames ∧ e'.heap = e.heap)
      ((m.traced t).executions fuel (s.profiled p))
      ((m.traced t').executions fuel (s.profiled p')) := by
  have hm : (observing p p').Machines (m.traced t) (m.traced t') := observing_machines m t t'
  unfold executions
  rw [hm.entry_eq]
  cases hentry : (m.traced t).entry with
  | error cause => exact .nil
  | ok b =>
    have hbegin := hm.begin (s.profiled p) (s.profiled p') hentry rfl hs.matches_self id
    -- Both runs use the same ids, so that they cannot part.
    rcases lockstep hm hbegin fuel with hparted | ⟨_, hexecuted⟩
    · exact hparted.1.elim
    · exact hexecuted.imp fun e e' he => ⟨observing_renames.frames_eq he.frames, he.heap.symm⟩

/-- An executed instruction is shown as what it is, with the operands and the heap before it. -/
theorem block_of_executions {m : Machine} {fuel : Nat} {s e : State}
    (he : e ∈ m.executions fuel s) :
    ∃ a rest i, e.frames = a :: rest ∧ a.blueprint.code[a.pc]? = some i ∧
      e.block = traceBlock a i e.heap := by
  unfold executions at he
  cases hentry : m.entry with
  | error cause =>
    rw [hentry] at he
    cases he
  | ok b =>
    rw [hentry] at he
    obtain ⟨i, hi⟩ := instruction?_of_executed he
    obtain ⟨a, rest, hframes, hcode⟩ := State.frames_of_instruction? hi
    exact ⟨a, rest, i, hframes, hcode, State.block_eq hframes hcode⟩

/-- What a run has printed, in terms of the run that shows nothing and counts nothing: both execute
the same instructions, in states with the same activations and heap. -/
theorem output_observed (m : Machine) {s last : State} (hs : s.console.Reliable) {fuel : Nat}
    {t : Bool} {p : Option Profile} {result : Except Fault Value}
    (hrun : (m.traced t).run fuel (s.profiled p) = some (result, last)) :
    last.console.output = s.console.output ++ String.join (((m.traced false).executions fuel s).map
      fun e => (if t then e.block else "") ++ Value.textOf e.written?) := by
  have hsame := executions_observed m hs fuel false t s.profile p
  have hprints : ((m.traced t).executions fuel (s.profiled p)).map (m.traced t).prints =
      ((m.traced false).executions fuel s).map
        fun e => (if t then e.block else "") ++ Value.textOf e.written? := by
    refine eq_map_of_forall₂ (fun _ _ h => h) (List.forall₂_map_right_iff.2 (hsame.imp ?_))
    -- What is printed depends on the activations and the heap alone.
    rintro e e' ⟨hframes, hheap⟩
    unfold prints State.block State.written?
    rw [hframes, hheap]
    rfl
  rw [← hprints]
  exact output_run (s := s.profiled p) hs hrun

/-- Neither showing the instructions nor counting them has an influence on a run, if the console
never fails. Whether the machine does the one or the other, a run from the same state has not ended
or has the same answer, with the same heap, the same activations left and the same input left; and
its profile is the same if it starts with the same. What is printed is, for each executed
instruction, the value that it writes, and in front of that, if instructions are shown, the block of
the instruction. A block has a line each for the function, the index and the instruction, for the
operands before it, from the oldest on, and for the objects before it, in the order of their ids and
with their fields. -/
theorem observation_transparent (m : Machine) (s : State) (hs : s.console.Reliable) (fuel : Nat) :
    (∀ t t' p p', Option.Rel
      (fun r r' => r'.1 = r.1 ∧ r'.2.heap = r.2.heap ∧ r'.2.frames = r.2.frames ∧
        r'.2.console.input = r.2.console.input ∧ (p' = p → r'.2.profile = r.2.profile))
      ((m.traced t).run fuel (s.profiled p)) ((m.traced t').run fuel (s.profiled p'))) ∧
    (∀ p result last, (m.traced false).run fuel (s.profiled p) = some (result, last) →
      last.console.output = s.console.output ++
        String.join (((m.traced false).executions fuel s).map fun e => Value.textOf e.written?)) ∧
    (∀ p result last, (m.traced true).run fuel (s.profiled p) = some (result, last) →
      last.console.output = s.console.output ++ String.join
        (((m.traced false).executions fuel s).map fun e => e.block ++ Value.textOf e.written?)) ∧
    ∀ e ∈ (m.traced false).executions fuel s,
      ∃ (a : Activation) (rest : List Activation) (i : Instruction)
        (objects : List (ObjectId × Record)),
        e.frames = a :: rest ∧ a.blueprint.code[a.pc]? = some i ∧
        (objects.map Prod.fst).Pairwise (· < ·) ∧
        (∀ id r, (id, r) ∈ objects ↔ e.heap.object id = .ok r) ∧
        e.block = "\n\t FRAME........: " ++ a.blueprint.name
          ++ "\n\t PC...........: " ++ toString a.pc
          ++ "\n\t INSTRUCTION..: " ++ i.text
          ++ "\n\t OPERAND STACK: " ++ ("[" ++ ", ".intercalate (a.operands.map Value.text) ++ "]")
          ++ "\n\t HEAP.........: " ++ ("\x7b" ++ ", ".intercalate (objects.map fun (id, r) =>
              toString id ++ ": " ++ ("\x7b" ++ ", ".intercalate (r.fields.map fun (name, value) =>
                name ++ ": " ++ value.text) ++ "\x7d")) ++ "\x7d")
          ++ "\n" := by
  refine ⟨?_, ?_, ?_, ?_⟩
  · intro t t' p p'
    have hm : (observing p p').Machines (m.traced t) (m.traced t') := observing_machines m t t'
    cases hentry : (m.traced t).entry with
    | error cause =>
      -- A refused run has not even touched the profile.
      rw [run_of_refused hentry, run_of_refused (hm.entry_eq.trans hentry)]
      exact .some ⟨rfl, rfl, rfl, rfl, fun hp => hp⟩
    | ok b =>
      rcases observing_renames.run hm (s.profiled p) (s.profiled p') hentry rfl
          hs.matches_self id fuel
        with hparted | hrun
      · exact hparted.1.elim
      · refine rel_imp (fun r r' hr => ?_) hrun
        rw [hr.1, renameAnswer_id]
        exact ⟨rfl, hr.2.heap.symm, observing_renames.frames_eq hr.2.frames, hr.2.console.input,
          hr.2.profile⟩
  · intro p result last hrun
    simpa using output_observed m hs hrun
  · intro p result last hrun
    simpa using output_observed m hs hrun
  · intro e he
    obtain ⟨a, rest, i, hframes, hcode, hblock⟩ := block_of_executions he
    refine ⟨a, rest, i, e.heap.live, hframes, hcode, e.heap.pairwise_live,
      fun id r => Heap.mem_live_iff, ?_⟩
    rw [hblock]
    rfl

/-- A function that prints and then calls one that reads a field of a freed object. -/
def misreading : Machine where
  bytecode := .ofList
    [⟨"main", 0, #[.push (.string "so far"), .plain .write, .call "misread", .plain .ret]⟩,
      ⟨"misread", 0, #[.alloc ["next"], .plain .dup, .plain .free, .getField "next", .plain .ret]⟩]

/-- The run fails in the inner function. Traced and profiled, it fails at the same place, leaves the
same activations and prints the blocks of its seven instructions as well. In the last two of them
the object is first there, with its field, and then freed. -/
theorem observation_transparent_misreading :
    (misreading.initial {}).console.Reliable ∧ ∃ fault last last',
      (misreading.traced false).run 7 ((misreading.initial {}).profiled none) =
        some (.error fault, last) ∧
      (misreading.traced true).run 7 ((misreading.initial {}).profiled (some .fresh)) =
        some (.error fault, last') ∧
      last'.heap = last.heap ∧ last'.frames = last.frames ∧
      ((misreading.traced false).executions 7 (misreading.initial {})).length = 7 ∧
      last.console.output = String.join (((misreading.traced false).executions 7
        (misreading.initial {})).map fun e => Value.textOf e.written?) ∧
      last'.console.output = String.join (((misreading.traced false).executions 7
        (misreading.initial {})).map fun e => e.block ++ Value.textOf e.written?) ∧
      (((misreading.traced false).executions 7 (misreading.initial {})).drop 5).map State.block =
        ["\n\t FRAME........: misread\n\t PC...........: 2\n\t INSTRUCTION..: FREE"
            ++ "\n\t OPERAND STACK: [1111, 1111]"
            ++ "\n\t HEAP.........: \x7b1111: \x7bnext: nil\x7d\x7d\n",
          "\n\t FRAME........: misread\n\t PC...........: 3\n\t INSTRUCTION..: GETFLD next"
            ++ "\n\t OPERAND STACK: [1111]\n\t HEAP.........: \x7b\x7d\n"] := by
  have hs : (misreading.initial {}).console.Reliable := ⟨rfl, fun _ => rfl, fun _ => rfl⟩
  obtain ⟨hagree, hplain, htraced, _⟩ :=
    observation_transparent misreading (misreading.initial {}) hs 7
  obtain ⟨fault, last, hrun⟩ : ∃ fault last, (misreading.traced false).run 7
      ((misreading.initial {}).profiled none) = some (.error fault, last) := ⟨_, _, rfl⟩
  have hboth := hagree false true none (some .fresh)
  rw [hrun] at hboth
  cases hrun' : (misreading.traced true).run 7 ((misreading.initial {}).profiled (some .fresh)) with
  | none =>
    rw [hrun'] at hboth
    cases hboth
  | some r =>
    rw [hrun'] at hboth
    obtain ⟨result, last'⟩ := r
    obtain ⟨rfl, hheap, hframes, _, _⟩ := Option.rel_some_some.1 hboth
    refine ⟨hs, fault, last, last', hrun, rfl, hheap, hframes, rfl, ?_, ?_, ?_⟩
    · exact (hplain none _ last hrun).trans String.empty_append
    · exact (htraced _ _ last' hrun').trans String.empty_append
    · decide +kernel

end Machine

end RecordMachine
