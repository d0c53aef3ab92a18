import RecordMachine.Proofs.Correspondence.Displacement
import RecordMachine.Proofs.Machine.Output

/-!
# The first id

The settings say which id the first object gets. Programs cannot tell: two machines that differ in
this setting alone run in lockstep, and all that they hold, write and answer is the same up to
renaming the objects of the one to those of the other (`Machine.heap_base_invisible`). What they
print may differ, since an object is written as its id.

The machine with the higher ids is the first to run out of them, and then the runs part.
-/

namespace RecordMachine

/-! ## States and steps up to renaming -/

/-- The states have the same activations and objects up to renaming, and the same input left. -/
structure State.Renamed (ρ : ObjectId → ObjectId) (s s' : State) : Prop where
  frames : s'.frames = s.frames.map (Activation.rename ρ)
  heap : s'.heap = s.heap.rename ρ
  input : s'.console.input = s.console.input

/-- Both runs go on, or both have ended with answers that are the same up to renaming. -/
structure Step.Renamed (ρ : ObjectId → ObjectId) (r r' : Step) : Prop where
  state : r.state.Renamed ρ r'.state
  answer : r'.answer?.map Prod.fst = (r.answer?.map Prod.fst).map (renameAnswer ρ)

/-- Writing the renamed operand writes the renamed value. -/
theorem State.written?_of_frames {ρ : ObjectId → ObjectId} {s s' : State}
    (hframes : s'.frames = s.frames.map (Activation.rename ρ)) :
    s'.written? = s.written?.map (Value.rename ρ) := by
  -- An instruction writes the value on top of the stack, or nothing.
  have hwritten (i : Instruction) (stack : List Value) :
      i.written? (stack.map (Value.rename ρ)) = (i.written? stack).map (Value.rename ρ) := by
    unfold Instruction.written?
    split
    · exact List.head?_map
    · rfl
  unfold State.written?
  rw [hframes]
  cases s.frames with
  | nil => rfl
  | cons a rest =>
    show (a.blueprint.code[a.pc]?.bind fun i => i.written? (a.stack.map (Value.rename ρ))) =
      (a.blueprint.code[a.pc]?.bind fun i => i.written? a.stack).map (Value.rename ρ)
    cases a.blueprint.code[a.pc]? with
    | none => rfl
    | some i => exact hwritten i a.stack

/-- Without old cells, a displaced heap is a renamed one. -/
theorem Heap.Displaced.eq_rename {b₁ b₂ : ObjectId} {h h' : Heap} (hh : h.Displaced [] b₁ b₂ h') :
    h' = h.rename (displace b₁ b₂) := by
  obtain ⟨new, hcells, hnew⟩ := hh.cells
  have hbase : h'.base = displace b₁ b₂ h.base := by
    have hleft : h.base = b₁ := hh.base
    unfold displace
    rw [hh.base_right, hleft, Nat.sub_self, Nat.zero_add]
  -- Cells correspond one by one: both are freed, or both hold the same record up to renaming.
  have hcell : ∀ cell cell', Option.Rel (Record.Related (Value.Displaced b₁ b₂)) cell cell' →
      cell' = cell.map (Record.rename (displace b₁ b₂)) := by
    intro cell cell' hrel
    cases hrel with
    | none => rfl
    | some hr => rw [hr.eq_rename fun _ _ hv => hv.eq_rename, Option.map_some]
  have hlist : h'.cells = h.cells.map (Option.map (Record.rename (displace b₁ b₂))) := by
    rw [← Array.toList_inj, Array.toList_map, hcells, List.nil_append]
    exact eq_map_of_forall₂ hcell hnew
  calc h' = ⟨h'.base, h'.cells⟩ := rfl
    _ = h.rename (displace b₁ b₂) := by
      rw [hbase, hlist]
      rfl

namespace Correspondence

/-- Objects at the same distance from two first ids, on consoles that never fail. -/
def rebased (b₁ b₂ : ObjectId) : Correspondence :=
  displaced [] b₁ b₂ Console.Matches (fun _ _ v w hc _ => hc.print v.text w.text)
    fun _ _ hc => hc.readLine

variable {b₁ b₂ : ObjectId}

/-- Objects at the same distance from the first ids are renamed by `displace`. -/
theorem rebased_renames : (rebased b₁ b₂).Renames (displace b₁ b₂) := fun _ _ hv =>
  Value.Displaced.eq_rename hv

/-- States in this correspondence are the same up to renaming, since there are no old cells. -/
theorem States.renamed {s s' : State} (hs : (rebased b₁ b₂).States s s') :
    s.Renamed (displace b₁ b₂) s' where
  frames := rebased_renames.frames hs.frames
  heap := Heap.Displaced.eq_rename hs.heap
  input := Console.Matches.input hs.console

end Correspondence

/-! ## Runs -/

/-- The answer of a run that has ended because every object id has been used. -/
def RunsOut (answer : Option (Except Fault Value × State)) : Prop :=
  ∃ place last, answer = some (.error ⟨.heapExhausted, place⟩, last)

namespace Machine

open Correspondence

/-- What the first `n` steps come to, of a run in the function `b` without earlier runs. -/
def moment (m : Machine) (c : Console) (p : Option Profile) (b : Blueprint) (n : Nat) : Step :=
  m.advance n (m.begin (m.initial c p) b)

/-- What each instruction has written that these steps have executed, if it has written anything. -/
def writes (m : Machine) (c : Console) (p : Option Profile) (b : Blueprint) (n : Nat) :
    List (Option Value) :=
  (m.executed n (m.begin (m.initial c p) b)).map State.written?

/-- What a console has taken by a moment, if instructions are not shown: the texts of what was
written. -/
theorem output_moment {m : Machine} (htrace : m.settings.trace = false) {c : Console}
    (hc : c.Reliable) (p : Option Profile) (b : Blueprint) (n : Nat) :
    (m.moment c p b n).state.console.output =
      c.output ++ String.join ((m.writes c p b n).map Value.textOf) := by
  have hprints : m.prints = fun s => Value.textOf s.written? := by
    funext s
    unfold prints
    rw [htrace]
    exact String.empty_append
  have houtput := m.output_advance n (s := m.begin (m.initial c p) b) hc
  unfold moment writes
  rw [houtput, hprints, List.map_map]
  rfl

/-- A run that has met the end of the ids reports it, wherever that was. -/
theorem runsOut_of_exhausted {m : Machine} {s : State} {b : Blueprint} {n : Nat}
    (hentry : m.entry = .ok b) (h : (m.advance n (m.begin s b)).Exhausted) :
    RunsOut (m.run n s) := by
  rw [run_of_entry hentry]
  cases hstep : m.advance n (m.begin s b) with
  | next _ | done _ _ =>
    rw [hstep] at h
    exact h.elim
  | failed fault last =>
    rw [hstep] at h
    obtain ⟨cause, place⟩ := fault
    cases h
    exact ⟨place, _, rfl⟩

/-- A run is never refused because of an object. -/
theorem renameAnswer_of_refused {m : Machine} {cause : Cause} (hentry : m.entry = .error cause)
    (ρ : ObjectId → ObjectId) : renameAnswer ρ (.error ⟨cause, none⟩) = .error ⟨cause, none⟩ := by
  have hkind := kind_of_entry_error hentry
  have hobject : cause.object? = none :=
    Cause.object?_eq_none (by rw [hkind]; decide) (by rw [hkind]; decide)
  show Except.error (Fault.mk (cause.rename ρ) none) = .error ⟨cause, none⟩
  rw [Cause.rename_of_object? ρ hobject]

/-- Which id the first object gets makes no difference, up to renaming objects. Let the code name no
object, let no instruction be shown, and let the console never fail. Then two runs that differ in
this setting alone proceed in lockstep until ids run out for one of them. At every moment, their
activations and objects are the same up to renaming, and so is all that has been written; each has
printed the texts of what it has written. Their answers are the same up to renaming; in particular,
faults are of the same kind and at the same place. -/
theorem heap_base_invisible (m : Machine) (hplain : m.bytecode.Unforged)
    (htrace : m.settings.trace = false) (b₁ b₂ : ObjectId) (c : Console) (hc : c.Reliable)
    (p : Option Profile) :
    (∀ b, m.entry = .ok b → ∀ n,
      ((m.based b₁).moment c p b n).Exhausted ∨ ((m.based b₂).moment c p b n).Exhausted ∨
      (((m.based b₁).moment c p b n).Renamed (displace b₁ b₂) ((m.based b₂).moment c p b n) ∧
        (m.based b₂).writes c p b n =
          ((m.based b₁).writes c p b n).map (Option.map (Value.rename (displace b₁ b₂))) ∧
        ((m.based b₁).moment c p b n).state.console.output =
          c.output ++ String.join (((m.based b₁).writes c p b n).map Value.textOf) ∧
        ((m.based b₂).moment c p b n).state.console.output =
          c.output ++ String.join (((m.based b₂).writes c p b n).map Value.textOf))) ∧
    ∀ fuel, RunsOut ((m.based b₁).run fuel ((m.based b₁).initial c p)) ∨
      RunsOut ((m.based b₂).run fuel ((m.based b₂).initial c p)) ∨
      Option.Rel (fun r r' => r'.1 = renameAnswer (displace b₁ b₂) r.1 ∧
          (∀ fault fault', r.1 = .error fault → r'.1 = .error fault' →
            fault'.cause.kind = fault.cause.kind ∧ fault'.location = fault.location) ∧
          r.2.Renamed (displace b₁ b₂) r'.2)
        ((m.based b₁).run fuel ((m.based b₁).initial c p))
        ((m.based b₂).run fuel ((m.based b₂).initial c p)) := by
  -- The two machines correspond, and so do their heaps before anything was made.
  have hm : (rebased b₁ b₂).Machines (m.based b₁) (m.based b₂) := machines_based hplain htrace b₁ b₂
  have hheap : (Heap.new b₁).Displaced [] b₁ b₂ (.new b₂) := .start (.new b₁) rfl b₂
  refine ⟨?_, ?_⟩
  · intro b hentry n
    -- At every moment: the runs are in lockstep, or one of them has used up its ids.
    have hbegin := hm.begin ((m.based b₁).initial c p) ((m.based b₂).initial c p) hentry hheap
      hc.matches_self trivial
    rcases lockstep hm hbegin n with ⟨_, hleft | hright⟩ | ⟨hsteps, hexecuted⟩
    · exact .inl hleft
    · exact .inr (.inl hright)
    · obtain ⟨hstates, hanswer⟩ := rebased_renames.answer hsteps
      -- An instruction writes what is on top of the stack, in the states that correspond one by
      -- one.
      have hwrites : (m.based b₂).writes c p b n =
          ((m.based b₁).writes c p b n).map (Option.map (Value.rename (displace b₁ b₂))) := by
        unfold writes
        rw [List.map_map]
        refine eq_map_of_forall₂ (fun _ _ h => h) (List.forall₂_map_right_iff.2 (hexecuted.imp ?_))
        intro e e' he
        exact State.written?_of_frames he.renamed.frames
      have hprinted := output_moment (m := m.based b₁) htrace hc p b n
      have hprinted' := output_moment (m := m.based b₂) htrace hc p b n
      exact .inr (.inr ⟨⟨hstates.renamed, hanswer⟩, hwrites, hprinted, hprinted'⟩)
  · intro fuel
    cases hentry : (m.based b₁).entry with
    | error cause =>
      -- Both runs are refused, for the same cause, which is about no object.
      have hsame := renameAnswer_of_refused hentry (displace b₁ b₂)
      refine .inr (.inr ?_)
      rw [run_of_refused hentry, run_of_refused (hm.entry_eq.trans hentry)]
      refine .some ⟨hsame.symm, ?_, rfl, hheap.eq_rename, rfl⟩
      intro fault fault' hfault hfault'
      exact kind_of_renameAnswer _ hfault (hsame.trans hfault')
    | ok b =>
      rcases rebased_renames.run hm ((m.based b₁).initial c p) ((m.based b₂).initial c p)
        hentry hheap hc.matches_self trivial fuel with ⟨_, hleft | hright⟩ | hrun
      · exact .inl (runsOut_of_exhausted hentry hleft)
      · exact .inr (.inl (runsOut_of_exhausted (hm.entry_eq.trans hentry) hright))
      · refine .inr (.inr (rel_imp (fun r r' hr => ⟨hr.1, ?_, hr.2.renamed⟩) hrun))
        intro fault fault' hfault hfault'
        exact kind_of_renameAnswer _ hfault (hr.1.symm.trans hfault')

/-- A function that writes an object whose only field is the object itself, and returns it. -/
def selfish : Machine where
  bytecode := .ofList [⟨"main", 0, #[.alloc ["self"], .store 0, .load 0, .load 0, .setField "self",
    .load 0, .plain .write, .load 0, .plain .ret]⟩]

/-- Beginning with the ids 5 and 70, the two runs write and return different objects, each of which
holds itself. -/
theorem heap_base_invisible_selfish :
    selfish.bytecode.Unforged ∧ ∃ last last',
      (selfish.based 5).run 9 ((selfish.based 5).initial {}) = some (.ok (.object 5), last) ∧
      (selfish.based 70).run 9 ((selfish.based 70).initial {}) = some (.ok (.object 70), last') ∧
      renameAnswer (displace 5 70) (.ok (.object 5)) = .ok (.object 70) ∧
      last.Renamed (displace 5 70) last' := by
  have hplain : selfish.bytecode.Unforged := by decide
  have hc : Console.Reliable {} := ⟨rfl, fun _ => rfl, fun _ => rfl⟩
  obtain ⟨last, hrun⟩ : ∃ last,
      (selfish.based 5).run 9 ((selfish.based 5).initial {}) = some (.ok (.object 5), last) :=
      ⟨_, rfl⟩
  obtain ⟨last', hrun'⟩ : ∃ last',
      (selfish.based 70).run 9 ((selfish.based 70).initial {}) = some (.ok (.object 70), last') :=
    ⟨_, rfl⟩
  have hruns := (heap_base_invisible selfish hplain rfl 5 70 {} hc none).2 9
  rw [hrun, hrun'] at hruns
  rcases hruns with ⟨_, _, hout⟩ | ⟨_, _, hout⟩ | hboth
  · cases hout
  · cases hout
  · exact ⟨hplain, last, last', hrun, hrun', rfl, (Option.rel_some_some.1 hboth).2.2⟩

end Machine

end RecordMachine
