import RecordMachine.Proofs.Correspondence.Displacement
import RecordMachine.Proofs.Machine.Output
import RecordMachine.Proofs.Machine.References

/-!
# Runs after other runs

A machine may run again and again, and its heap keeps all that earlier runs have put there. A run
does not notice (`Machine.runs_isolated`): it has no way to get at an object of an earlier run,
activations that such a run has left are dropped, and so it does what the first run of a machine
does whose ids begin where those of the old objects end. Afterwards the heap is the old one,
followed by the heap of that other machine.

The two machines have consoles of their own. These may have taken different texts and may have
counted differently, as long as they behave the same from now on (`Console.Alike`).
-/

namespace RecordMachine

/-! ## Consoles that behave the same -/

namespace Console

/-- From now on the consoles behave the same: they have the same input left, and their devices fail
in the same places. -/
structure Alike (c c' : Console) : Prop where
  input : c'.input = c.input
  inputPoisoned : c'.inputPoisoned = c.inputPoisoned
  outputPoisoned : c'.outputPoisoned = c.outputPoisoned
  writes : ∀ k, c'.sink.writeFault (c'.writes + k) = c.sink.writeFault (c.writes + k)
  flushes : ∀ k, c'.sink.flushFault (c'.flushes + k) = c.sink.flushFault (c.flushes + k)

/-- The consoles behave the same, and have taken the same text after `out` and `out'`. -/
structure Echoes (out out' : String) (c c' : Console) : Prop where
  alike : c.Alike c'
  output : ∃ text, c.output = out ++ text ∧ c'.output = out' ++ text

variable {c c' : Console} {out out' : String}

/-- Consoles that behave the same have so far taken the same text after what they had taken. -/
theorem Alike.echoes (h : c.Alike c') : Echoes c.output c'.output c c' :=
  ⟨h, "", String.append_empty.symm, String.append_empty.symm⟩

/-- A text is taken by both consoles or by neither, and is then the same addition to both
outputs. -/
theorem Echoes.write (h : Echoes out out' c c') (text : String) :
    (c'.write text).1 = (c.write text).1 ∧ Echoes out out' (c.write text).2 (c'.write text).2 := by
  -- The next attempt is the first one counted from here, so that later ones shift by one.
  have hwrites (k : Nat) :
      c'.sink.writeFault (c'.writes + 1 + k) = c.sink.writeFault (c.writes + 1 + k) := by
    rw [Nat.add_assoc, Nat.add_assoc]
    exact h.alike.writes (1 + k)
  unfold Console.write
  split
  · exact ⟨rfl, h⟩
  · dsimp only
    rw [h.alike.writes 1]
    cases c.sink.writeFault (c.writes + 1) with
    | some message =>
      exact ⟨rfl, ⟨h.alike.input, h.alike.inputPoisoned, h.alike.outputPoisoned, hwrites,
        h.alike.flushes⟩, h.output⟩
    | none =>
      obtain ⟨taken, hleft, hright⟩ := h.output
      refine ⟨rfl, ⟨h.alike.input, h.alike.inputPoisoned, h.alike.outputPoisoned, hwrites,
        h.alike.flushes⟩, taken ++ text, ?_, ?_⟩
      · rw [hleft, String.append_assoc]
      · rw [hright, String.append_assoc]

/-- The devices flush alike, and flushing takes no text. -/
theorem Echoes.flush (h : Echoes out out' c c') :
    c'.flush.1 = c.flush.1 ∧ Echoes out out' c.flush.2 c'.flush.2 := by
  have hflushes (k : Nat) :
      c'.sink.flushFault (c'.flushes + 1 + k) = c.sink.flushFault (c.flushes + 1 + k) := by
    rw [Nat.add_assoc, Nat.add_assoc]
    exact h.alike.flushes (1 + k)
  have halike : Alike { c with flushes := c.flushes + 1 } { c' with flushes := c'.flushes + 1 } :=
    ⟨h.alike.input, h.alike.inputPoisoned, h.alike.outputPoisoned, h.alike.writes, hflushes⟩
  unfold Console.flush
  dsimp only
  rw [h.alike.flushes 1]
  cases c.sink.flushFault (c.flushes + 1) with
  | some message => exact ⟨rfl, halike, h.output⟩
  | none => exact ⟨rfl, halike, h.output⟩

/-- A print is a write and a flush, and stops at the same point on both consoles. -/
theorem Echoes.print (h : Echoes out out' c c') (text : String) :
    (c'.print text).1 = (c.print text).1 ∧ Echoes out out' (c.print text).2 (c'.print text).2 := by
  obtain ⟨hsame, hwritten⟩ := h.write text
  unfold Console.print
  rw [h.alike.outputPoisoned]
  split
  · exact ⟨rfl, h⟩
  · generalize c.write text = r at hsame hwritten ⊢
    generalize c'.write text = r' at hsame hwritten ⊢
    obtain ⟨result, d⟩ := r
    obtain ⟨result', d'⟩ := r'
    cases hsame
    cases result with
    | ok u => exact hwritten.flush
    | error cause => exact ⟨rfl, hwritten⟩

/-- Both consoles read the same line off the same input; their outputs are not touched. -/
theorem Echoes.readLine (h : Echoes out out' c c') :
    c'.readLine.1 = c.readLine.1 ∧ Echoes out out' c.readLine.2 c'.readLine.2 := by
  obtain ⟨hline, hinput⟩ := readLine_congr h.alike.input h.alike.inputPoisoned
  obtain ⟨left, hleft⟩ := c.quiet_readLine
  obtain ⟨left', hleft'⟩ := c'.quiet_readLine
  rw [hleft, hleft'] at hinput ⊢
  exact ⟨hline, ⟨hinput, h.alike.inputPoisoned, h.alike.outputPoisoned, h.alike.writes,
    h.alike.flushes⟩, h.output⟩

end Console

/-! ## The correspondence -/

/-- Where the bases are the same, the new cells are those of the other heap. -/
theorem Heap.Displaced.eq_append {old : List (Option Record)} {b : ObjectId} {h h' : Heap}
    (hh : h.Displaced old b b h') : h.cells.toList = old ++ h'.cells.toList := by
  obtain ⟨new, hcells, hnew⟩ := hh.cells
  have hcell : ∀ cell cell', Option.Rel (Record.Related (Value.Displaced b b)) cell cell' →
      cell' = id cell := by
    intro cell cell' hrel
    cases hrel with
    | none => rfl
    | some hr =>
      rw [hr.eq_rename fun _ _ hv => hv.eq_rename_id, Record.rename_id]
      rfl
  rw [hcells, eq_map_of_forall₂ hcell hnew, List.map_id]

namespace Correspondence

/-- The same values, on a heap with old cells below `b` and on one that begins there. -/
def following (old : List (Option Record)) (b : ObjectId) (out out' : String) : Correspondence :=
  displaced old b b (Console.Echoes out out')
    (by
      intro c c' v w hc hv
      rw [hv.eq_rename_id, Value.rename_id]
      exact hc.print v.text)
    fun _ _ hc => hc.readLine

variable {old : List (Option Record)} {b : ObjectId} {out out' : String}

/-- Nothing is renamed where both ids go on at the same place. -/
theorem following_renames : (following old b out out').Renames id := fun _ _ hv =>
  Value.Displaced.eq_rename_id hv

/-- Such runs never part: their ids run out together. -/
theorem not_parted_following {r r' : Step} : ¬ (following old b out out').Parted r r' :=
  fun hparted => hparted.1 rfl

end Correspondence

/-! ## Runs -/

namespace Machine

open Correspondence

variable {m : Machine} {log : Ledger} {s s' : State}

/-- What a run leaves can be reached. -/
theorem Reachable.run {fuel : Nat} {result : Except Fault Value} (hs : m.Reachable log s)
    (hrun : m.run fuel s = some (result, s')) :
    ∃ log' : Ledger, log <+: log' ∧ m.Reachable log' s' := by
  rcases run_cases hrun with ⟨_, _, _, rfl⟩ | ⟨b, is, last, ended, hentry, htrace, hanswer, rfl⟩
  · exact ⟨log, List.prefix_rfl, hs⟩
  · obtain ⟨log', hlog, hlast⟩ := (hs.start hentry).trace htrace
    refine ⟨log', hlog, ?_⟩
    -- The last step ends the run, with a value or with a fault.
    cases hstep : m.step last with
    | next _ =>
      rw [hstep] at hanswer
      cases hanswer
    | done v _ =>
      rw [hstep] at hanswer
      cases hanswer
      exact hlast.done hstep
    | failed fault _ =>
      rw [hstep] at hanswer
      cases hanswer
      exact hlast.failed hstep

/-- A machine that never has a function to start in has no activations. -/
theorem Reachable.frames_of_refused {cause : Cause} (hs : m.Reachable log s)
    (hentry : m.entry = .error cause) : s.frames = [] := by
  -- Without an activation no step is possible, and only a start makes the first one.
  have hstuck {t : State} (ht : t.frames = []) : m.step t = .failed ⟨.noActivation, none⟩ t := by
    unfold Machine.step
    rw [ht]
  induction hs with
  | fresh console profile => rfl
  | equip _ console profile ih => exact ih
  | start _ hstart _ => cases hstart.symm.trans hentry
  | step _ hstep ih => cases (hstuck ih).symm.trans hstep
  | done _ hstep ih => cases (hstuck ih).symm.trans hstep
  | failed _ hstep ih =>
    cases (hstuck ih).symm.trans hstep
    rw [frames_finish]
    exact ih

/-- No step complains about the function that the run has started in. -/
theorem kind_of_failed {fault : Fault} (hstep : m.step s = .failed fault s') :
    fault.cause.kind ≠ .noEntryPoint := by
  intro hkind
  rcases m.step_cases s with ⟨_, h⟩ | ⟨_, _, _, _, h⟩ | ⟨a, rest, i, _, _, hexec⟩
  · cases h.symm.trans hstep
    cases hkind
  · cases h.symm.trans hstep
    cases hkind
  · rw [hstep] at hexec
    cases hexec with
    | fails hblames _ _ _ =>
      have hcalls := hblames.not_isAboutCalls
      rw [hkind] at hcalls
      cases hcalls
    | refused _ _ hcause _ _ => cases hcause <;> cases hkind
    | unwritten _ hio _ _ => cases hio.symm.trans hkind

/-- Where the ids of the objects end that a machine has made. -/
theorem Reachable.next_id (hplain : m.bytecode.Unforged) (hs : m.Reachable log s) :
    s.heap.base + s.heap.cells.size = m.settings.heapBase + log.made.length := by
  have ht := (hs.accounted hplain).tracks
  rw [ht.base_eq, ht.made_eq, List.length_range']

/-- Runs are isolated from what earlier runs have left behind. Let the code name no object, let no
instruction be shown, and let the machine have run before in any way, with `log` of all that it has
asked of its heap. Then its next run does what the first run of a machine does whose ids begin after
those of the objects made so far, on a console that behaves the same: it has the same answer, prints
the same text, and leaves the same activations and the same input; its heap is then the old heap,
unchanged, followed by the heap of the other machine. And a run, of any machine, that has no
function to start in changes nothing at all. -/
theorem runs_isolated (m : Machine) :
    (m.bytecode.Unforged → m.settings.trace = false → ∀ log s, m.Reachable log s →
      ∀ c p, s.console.Alike c → ∀ fuel,
        Option.Rel
          (fun r r' => r'.1 = r.1 ∧ r'.2.frames = r.2.frames ∧
            r'.2.console.input = r.2.console.input ∧
            (∃ text, r.2.console.output = s.console.output ++ text ∧
              r'.2.console.output = c.output ++ text) ∧
            r.2.heap = ⟨s.heap.base, s.heap.cells ++ r'.2.heap.cells⟩ ∧
            r'.2.heap.base = s.heap.base + s.heap.cells.size)
          (m.run fuel s)
          ((m.based (m.settings.heapBase + log.made.length)).run fuel
            ((m.based (m.settings.heapBase + log.made.length)).initial c p))) ∧
    ∀ fuel s fault s', m.run fuel s = some (.error fault, s') →
      fault.cause.kind = .noEntryPoint → s' = s := by
  refine ⟨?_, ?_⟩
  · intro hplain htrace log s hs c p hc fuel
    have hnext := hs.next_id hplain
    -- From here on it only matters that the ids go on at `b`.
    generalize m.settings.heapBase + log.made.length = b at hnext ⊢
    have hm : (following s.heap.cells.toList b s.console.output c.output).Machines m (m.based b) :=
      machines_based hplain htrace m.settings.heapBase b
    cases hentry : m.entry with
    | error cause =>
      rw [run_of_refused hentry, run_of_refused (hm.entry_eq.trans hentry)]
      refine .some ⟨rfl, (hs.frames_of_refused hentry).symm, hc.input, ⟨"", ?_, ?_⟩, ?_, hnext.symm⟩
      · exact String.append_empty.symm
      · exact String.append_empty.symm
      · show s.heap = ⟨s.heap.base, s.heap.cells ++ #[]⟩
        rw [Array.append_empty]
    | ok start =>
      rcases following_renames.run hm s ((m.based b).initial c p) hentry
        (Heap.Displaced.start s.heap hnext b) hc.echoes trivial fuel with hparted | hrun
      · -- The next ids are the same on both sides, so that they run out together.
        exact absurd hparted not_parted_following
      · refine rel_imp ?_ hrun
        rintro ⟨result, last⟩ ⟨result', last'⟩ ⟨hanswer, hlast⟩
        have hheap : last.heap.Displaced s.heap.cells.toList b b last'.heap := hlast.heap
        have hconsole : Console.Echoes s.console.output c.output last.console last'.console :=
          hlast.console
        have hframes : last'.frames = last.frames := following_renames.frames_eq hlast.frames
        -- The old cells are as many on both sides of the equation, so the heap begins where it did.
        have hbase : last.heap.base = s.heap.base := by
          have hsame : last.heap.base + s.heap.cells.size = s.heap.base + s.heap.cells.size :=
            hheap.base.trans hnext.symm
          exact Nat.add_right_cancel hsame
        have hcells : last.heap.cells = s.heap.cells ++ last'.heap.cells := by
          rw [← Array.toList_inj, Array.toList_append]
          exact hheap.eq_append
        refine ⟨hanswer.trans (renameAnswer_id result), hframes, hconsole.alike.input,
          hconsole.output, ?_, hheap.base_right.trans hnext.symm⟩
        rw [← hbase, ← hcells]
  · intro fuel s fault s' hrun hkind
    rcases run_cases hrun with ⟨_, _, _, rfl⟩ | ⟨b, is, last, ended, _, _, hanswer, _⟩
    · rfl
    · exact absurd hkind (kind_of_failed (Step.eq_of_answer? hanswer))

/-- A function that prints, makes an object and calls one that fails. -/
def hoarding : Machine where
  bytecode := .ofList
    [⟨"main", 0,
      #[.push (.string "again"), .plain .write, .alloc ["kept"], .call "fail", .plain .ret]⟩,
      ⟨"fail", 0, #[.plain .pop]⟩]

/-- The first run leaves two activations and an object. The second run does not find them: it fails
as the first run of a machine does whose ids begin one later, and adds the object that this machine
makes. -/
theorem runs_isolated_hoarding :
    hoarding.bytecode.Unforged ∧ ∃ log first, hoarding.Reachable log first ∧ first.callDepth = 2 ∧
      log.made.length = 1 ∧ first.console.Alike {} ∧ ∃ fault last last',
        hoarding.run 5 first = some (.error fault, last) ∧
        (hoarding.based (1111 + 1)).run 5 ((hoarding.based (1111 + 1)).initial {}) =
          some (.error fault, last') ∧
        last'.frames = last.frames ∧
        last.heap = ⟨1111, first.heap.cells ++ last'.heap.cells⟩ := by
  have hplain : hoarding.bytecode.Unforged := by decide
  obtain ⟨fault₁, first, hfirst, hdepth, hbase, hsize, halike, fault, last, hrun⟩ :
      ∃ fault₁ first, hoarding.run 5 (hoarding.initial {}) = some (.error fault₁, first) ∧
        first.callDepth = 2 ∧ first.heap.base = 1111 ∧ first.heap.cells.size = 1 ∧
        first.console.Alike {} ∧ ∃ fault last, hoarding.run 5 first = some (.error fault, last) :=
    ⟨_, _, rfl, rfl, rfl, rfl, ⟨rfl, rfl, rfl, fun _ => rfl, fun _ => rfl⟩, _, _, rfl⟩
  -- The ledger of the first run is not computed; how many objects are in it follows from the heap.
  obtain ⟨log, _, hs⟩ := (Reachable.fresh (m := hoarding) {} none).run hfirst
  have hlength : log.made.length = 1 := by
    have hnext := hs.next_id hplain
    rw [hbase, hsize] at hnext
    exact (Nat.add_left_cancel hnext).symm
  have hruns := (runs_isolated hoarding).1 hplain rfl log first hs {} none halike 5
  rw [hlength, hrun] at hruns
  cases hrun' : (hoarding.based (1111 + 1)).run 5 ((hoarding.based (1111 + 1)).initial {}) with
  | none =>
    rw [show hoarding.settings.heapBase + 1 = 1111 + 1 from rfl, hrun'] at hruns
    cases hruns
  | some r =>
    rw [show hoarding.settings.heapBase + 1 = 1111 + 1 from rfl, hrun'] at hruns
    obtain ⟨result, last'⟩ := r
    obtain ⟨rfl, hframes, _, _, hheap, _⟩ := Option.rel_some_some.1 hruns
    rw [hbase] at hheap
    exact ⟨hplain, log, first, hs, hdepth, hlength, halike, fault, last, last', hrun, rfl, hframes,
      hheap⟩

end Machine

end RecordMachine
