import RecordMachine.Machine.Words
import RecordMachine.Proofs.Machine.Locations
import RecordMachine.Proofs.Machine.Progress
import RecordMachine.Proofs.Machine.References
import RecordMachine.Validation

/-!
# Computations with words have results

A machine computes with words at four places, and at three of them a result is certain. An
instruction that can be fetched has an index below the size of its code, so that the next index is a
word. The number of arguments is compared with the height of the stack before it is subtracted. And
the heap has only given out ids that are words, in this run or in an earlier one
(`Machine.Reachable.tracks`).

The fourth is the number of slots to make for a slot that does not exist yet: it is one more than
the index of the slot, which is not a word for the last slot of all (`Machine.Exceeds`). A run in
words breaks down where it sets that slot and nowhere else, and otherwise it is the run of the
machine (`Machine.words_suffice`).
-/

namespace RecordMachine

/-- The sizes of the code and the slots in it are words. -/
def Bytecode.InWords (bc : Bytecode) : Prop :=
  ∀ b ∈ bc.blueprints, b.code.size < Decimal.wordLimit ∧
    ∀ i ∈ b.code, ∀ slot ∈ Operand.slot? i.operand, slot < Decimal.wordLimit

instance (bc : Bytecode) : Decidable bc.InWords :=
  inferInstanceAs (Decidable (∀ b ∈ bc.blueprints, _))

/-- The instruction sets the last slot that has a word for its index. -/
def Instruction.SetsLast (i : Instruction) : Prop :=
  i.opcode = .store ∧ ∃ slot ∈ Operand.slot? i.operand, slot + 1 = Decimal.wordLimit

/-- The next instruction is executed and sets the last slot, to an operand that is there, and the
activation does not have this slot yet. -/
def Machine.Exceeds (m : Machine) (s : State) : Prop :=
  ¬ m.Unshown s ∧ ∃ a rest i, s.frames = a :: rest ∧ a.blueprint.code[a.pc]? = some i ∧
    i.SetsLast ∧ a.stack ≠ [] ∧ a.slots.length < Decimal.wordLimit

/-- The attempt that does not break down. -/
def Attempt.ofOption {α : Type} : Option α → Attempt α
  | none => .unfinished
  | some result => .ended result

namespace Attempt

variable {α β : Type} {f : α → β}

/-- What is made of a result does not matter for whether there is one. -/
theorem map_eq_brokenDown_iff {attempt : Attempt α} :
    attempt.map f = .brokenDown ↔ attempt = .brokenDown := by
  cases attempt <;> simp [map]

/-- What does not break down still does not, whatever is made of its result. -/
theorem map_ofOption (answer : Option α) : (ofOption answer).map f = ofOption (answer.map f) := by
  cases answer <;> rfl

end Attempt

/-! ## What a machine can come to -/

namespace Machine

variable {m : Machine} {log : Ledger} {s s' : State}

/-- All objects of the heap have been given out by steps of the machine. -/
theorem Reachable.tracks (hs : m.Reachable log s) :
    Ledger.Tracks m.settings.heapBase log s.heap := by
  induction hs with
  | fresh console profile => exact .new _
  | equip _ _ _ ih => exact ih
  | start _ _ ih => exact ih
  | step _ hstep ih =>
    obtain ⟨a, rest, i, hframes, hi, hexec⟩ := executes_of_next hstep
    rw [State.request?_eq hframes hi]
    -- A step adds the request of its instruction to the ledger, if it has one.
    apply ih.note
    cases hexec with
    | effect heffect _ hheap =>
      rw [hheap]
      exact heffect.served
    | call hop _ _ _ _ hheap => exact .inr ⟨Instruction.request?_eq_none (hop ▸ rfl) _, hheap⟩
    | ret hop _ _ _ hheap => exact .inr ⟨Instruction.request?_eq_none (hop ▸ rfl) _, hheap⟩
  | done _ hstep ih =>
    obtain ⟨_, _, _, _, _, hheap⟩ := executes_of_done hstep
    rw [heap_finish, hheap]
    exact ih
  | failed _ hstep ih =>
    rw [heap_finish, (left_of_failed hstep).1]
    exact ih

/-- All activations are of functions of the program. -/
theorem Reachable.code (hs : m.Reachable log s) :
    ∀ a ∈ s.frames, a.blueprint ∈ m.bytecode.blueprints := by
  induction hs with
  | fresh console profile => simp [initial]
  | equip _ _ _ ih => exact ih
  | start _ hentry _ =>
    have hb := (Bytecode.mem_of_get? (get?_of_entry hentry)).1
    simpa [begin, State.report, Activation.enter] using hb
  | step _ hstep ih =>
    obtain ⟨a, rest, i, hframes, _, hexec⟩ := executes_of_next hstep
    obtain ⟨ha, hrest⟩ := List.forall_mem_cons.1 (hframes ▸ ih)
    -- Only a call brings an activation, and its code is taken from the program.
    cases hexec with
    | effect heffect hframes' _ =>
      rw [hframes']
      exact List.forall_mem_cons.2 ⟨heffect.blueprint_eq ▸ ha, hrest⟩
    | call _ _ hcallee _ hframes' _ =>
      rw [hframes']
      have hb := (Bytecode.mem_of_get? hcallee).1
      exact List.forall_mem_cons.2 ⟨hb, List.forall_mem_cons.2 ⟨ha, hrest⟩⟩
    | ret _ hcaller _ hframes' _ =>
      subst hcaller
      rw [hframes']
      exact List.forall_mem_cons.2 (List.forall_mem_cons.1 hrest)
  | done _ hstep _ =>
    obtain ⟨_, _, _, _, hframes', _⟩ := executes_of_done hstep
    simp [hframes']
  | failed _ hstep ih =>
    rw [frames_finish]
    rcases (left_of_failed hstep).2 with hsame | ⟨a, rest, _, _, hframes, _, _, hframes'⟩
    · rw [hsame]
      exact ih
    · rw [hframes']
      exact List.forall_mem_cons.2 (List.forall_mem_cons.1 (hframes ▸ ih))

/-- The states of a run of a machine are among those that the machine can come to. -/
theorem Visits.reachable {s₀ : State} (hs : m.Visits s₀ s) (hstart : m.Reachable log s₀) :
    ∃ log', m.Reachable log' s := by
  obtain ⟨b, is, hentry, htrace⟩ := hs
  obtain ⟨log', _, hs⟩ := (hstart.start hentry).trace htrace
  exact ⟨log', hs⟩

end Machine

/-! ## One step -/

/-- Setting a slot has a result if the slot exists or the one behind it has a word for its index. -/
theorem Activation.storeOps_succeed_iff (a : Activation) (slot : Nat) :
    (a.storeOps slot).all WordOp.succeeds = true ↔
      slot < a.slots.length ∨ slot + 1 < Decimal.wordLimit := by
  unfold Activation.storeOps
  by_cases hslot : slot < a.slots.length <;> simp [hslot, WordOp.succeeds]

/-- Taking arguments has a result, as their number is compared first. -/
theorem Activation.popManyOps_succeed (a : Activation) (count : Nat) :
    (a.popManyOps count).all WordOp.succeeds = true := by
  unfold Activation.popManyOps
  by_cases henough : count ≤ a.stack.length <;> simp [henough, WordOp.succeeds]

/-- Listing the objects has a result, since all their ids are words. -/
theorem Ledger.Tracks.liveOps_succeed {base : ObjectId} {log : Ledger} {h : Heap}
    (ht : Ledger.Tracks base log h) : h.liveOps.all WordOp.succeeds = true := by
  rw [List.all_eq_true]
  intro op hop
  obtain ⟨⟨cell, index⟩, hmem, hcell⟩ := List.mem_filterMap.1 hop
  obtain ⟨r, _, rfl⟩ := Option.map_eq_some_iff.1 hcell
  have hindex : index < h.cells.size := by
    have hbound := List.snd_lt_of_mem_zipIdx hmem
    simpa using hbound
  exact decide_eq_true (ht.lt_wordLimit hindex)

namespace Machine

variable {m : Machine} {log : Ledger} {s s' : State}

/-- Of all instructions only the one that sets the last slot can lack a result. -/
theorem instructionOps_succeed_iff (a : Activation) (depth : Nat) {i : Instruction}
    (hword : ∀ slot ∈ Operand.slot? i.operand, slot < Decimal.wordLimit) :
    (m.instructionOps a depth i).all WordOp.succeeds = true ↔
      ¬ (i.SetsLast ∧ a.stack ≠ [] ∧ a.slots.length < Decimal.wordLimit) := by
  unfold instructionOps Instruction.SetsLast
  split
  · next hop =>
    split
    · next slot v left hslot hstack =>
      have hslotWord := hword slot hslot
      simp only [hop, hslot, hstack, Activation.storeOps_succeed_iff, Option.mem_some_iff,
        exists_eq_left', true_and, ne_eq, reduceCtorEq, not_false_eq_true]
      omega
    · next hnone =>
      -- The operand of the instruction is no slot, or there is nothing to set it to.
      simp only [List.all_nil, true_iff]
      rintro ⟨⟨_, slot, hslot, _⟩, hstack, _⟩
      obtain ⟨v, left, hcons⟩ := List.exists_cons_of_ne_nil hstack
      exact hnone slot v left hslot hcons
  · next hop =>
    have hcalls : i.opcode ≠ .store := by simp [hop]
    simp only [hcalls, false_and, not_false_eq_true, iff_true]
    split
    · exact a.popManyOps_succeed _
    · rfl
  · next hstore _ =>
    simp only [List.all_nil, true_iff]
    exact fun hsets => hstore hsets.1.1

/-- Whether the last slot is set can be told by the next instruction of the innermost activation. -/
theorem exceeds_iff {a : Activation} {rest : List Activation} {i : Instruction}
    (hframes : s.frames = a :: rest) (hi : a.blueprint.code[a.pc]? = some i) :
    m.Exceeds s ↔
      ¬ m.Unshown s ∧ i.SetsLast ∧ a.stack ≠ [] ∧ a.slots.length < Decimal.wordLimit := by
  constructor
  · rintro ⟨hshown, a', rest', i', hframes', hi', hsets⟩
    cases hframes.symm.trans hframes'
    cases hi.symm.trans hi'
    exact ⟨hshown, hsets⟩
  · rintro ⟨hshown, hsets⟩
    exact ⟨hshown, a, rest, i, hframes, hi, hsets⟩

/-- All that a step computes has a result, unless the step sets the last slot. -/
theorem wordOps_succeed_iff (hwords : m.bytecode.InWords) (hs : m.Reachable log s) :
    (m.wordOps s).all WordOp.succeeds = true ↔ ¬ m.Exceeds s := by
  unfold wordOps
  cases hframes : s.frames with
  | nil =>
    simp only [List.all_nil, true_iff]
    rintro ⟨_, a, rest, i, hframes', _⟩
    cases hframes.symm.trans hframes'
  | cons a rest =>
    dsimp only
    cases hi : a.blueprint.code[a.pc]? with
    | none =>
      simp only [List.all_nil, true_iff]
      rintro ⟨_, a', rest', i, hframes', hi', _⟩
      cases hframes.symm.trans hframes'
      cases hi.symm.trans hi'
    | some i =>
      obtain ⟨hsize, hslots⟩ := hwords _ (hs.code a (hframes ▸ List.mem_cons_self))
      -- The index of an instruction is below the size of the code, which is a word.
      have hfetch : (WordOp.sum a.pc 1).succeeds = true := by
        have hpc : a.pc < a.blueprint.code.size := (Array.getElem?_eq_some_iff.1 hi).1
        exact decide_eq_true (by omega)
      -- Showing the instruction lists the objects, whose ids are words.
      have hlisting : (if m.settings.trace then s.heap.liveOps else []).all WordOp.succeeds
          = true := by
        split
        · exact hs.tracks.liveOps_succeed
        · rfl
      have hinstruction := instructionOps_succeed_iff (m := m) a (a :: rest).length
        (hslots i (Array.mem_of_getElem? hi))
      have hunshown := unshown_iff (m := m) hframes hi
      rw [exceeds_iff hframes hi]
      simp only [List.all_cons, List.all_append, hfetch, hlisting, Bool.true_and]
      cases hshow :
          m.showInstruction { s with frames := { a with pc := a.pc + 1 } :: rest } a i with
      | mk result shown =>
        rw [hshow] at hunshown
        cases result with
        | ok u => simpa [hunshown] using hinstruction
        | error cause =>
          have hfails : m.Unshown s := hunshown.2 ⟨cause, shown, rfl⟩
          simp [hfails]

/-! ## Runs -/

/-- A run in words breaks down where it comes to set the last slot, and nowhere else. -/
theorem wordLoop_eq_brokenDown_iff (hwords : m.bytecode.InWords) (hs : m.Reachable log s)
    (fuel : Nat) :
    m.wordLoop fuel s = .brokenDown ↔
      ∃ is last, m.Trace s is last ∧ is.length < fuel ∧ m.Exceeds last := by
  induction fuel generalizing log s with
  | zero => simp [wordLoop]
  | succ fuel ih =>
    have hops := wordOps_succeed_iff hwords hs
    rw [wordLoop]
    by_cases hexceeds : m.Exceeds s
    · rw [if_neg fun hall => hops.1 hall hexceeds]
      exact ⟨fun _ => ⟨[], s, .nil s, Nat.succ_pos fuel, hexceeds⟩, fun _ => rfl⟩
    · rw [if_pos (hops.2 hexceeds)]
      -- A state to break down in lies behind a step that the run goes on from.
      have hbehind : ∀ is last, m.Trace s is last → m.Exceeds last →
          ∃ mid rest, m.step s = .next mid ∧ m.Trace mid rest last ∧
            is.length = rest.length + 1 := by
        intro is last htrace hlast
        cases htrace with
        | nil => exact absurd hlast hexceeds
        | cons _ hstep hrest => exact ⟨_, _, hstep, hrest, rfl⟩
      have hstuck : (∀ mid, m.step s ≠ .next mid) →
          ¬ ∃ is last, m.Trace s is last ∧ is.length < fuel + 1 ∧ m.Exceeds last := by
        rintro hends ⟨is, last, htrace, _, hlast⟩
        obtain ⟨mid, _, hnext, _⟩ := hbehind is last htrace hlast
        exact hends mid hnext
      cases hstep : m.step s with
      | next mid =>
        dsimp only
        rw [ih (hs.step hstep)]
        constructor
        · rintro ⟨is, last, htrace, hlength, hlast⟩
          obtain ⟨i, hi⟩ := instruction?_of_next hstep
          exact ⟨i :: is, last, .cons hi hstep htrace, Nat.succ_lt_succ hlength, hlast⟩
        · rintro ⟨is, last, htrace, hlength, hlast⟩
          obtain ⟨mid', rest, hstep', hrest, hlength'⟩ := hbehind is last htrace hlast
          cases hstep.symm.trans hstep'
          exact ⟨rest, last, hrest, by omega, hlast⟩
      | done v s' => exact iff_of_false (by simp) (hstuck (by simp [hstep]))
      | failed fault s' => exact iff_of_false (by simp) (hstuck (by simp [hstep]))

/-- As long as it does not break down, a run in words is the run of the machine. -/
theorem wordLoop_eq_loop {fuel : Nat} (hup : m.wordLoop fuel s ≠ .brokenDown) :
    m.wordLoop fuel s = .ofOption (m.loop fuel s) := by
  induction fuel generalizing s with
  | zero => rfl
  | succ fuel ih =>
    rw [wordLoop] at hup ⊢
    rw [loop]
    by_cases hall : (m.wordOps s).all WordOp.succeeds = true
    · rw [if_pos hall] at hup ⊢
      cases hstep : m.step s with
      | next mid =>
        rw [hstep] at hup
        exact ih hup
      | done v s' => rfl
      | failed fault s' => rfl
    · rw [if_neg hall] at hup
      exact absurd rfl hup

/-- So does a run from its start. -/
theorem wordRun_eq_brokenDown_iff (hwords : m.bytecode.InWords) (hs : m.Reachable log s)
    (fuel : Nat) :
    m.wordRun fuel s = .brokenDown ↔
      ∃ b is last, m.entry = .ok b ∧ m.Trace (m.begin s b) is last ∧ is.length < fuel ∧
        m.Exceeds last := by
  unfold wordRun
  cases hentry : m.entry with
  | error cause => simp
  | ok b =>
    dsimp only
    rw [Attempt.map_eq_brokenDown_iff, wordLoop_eq_brokenDown_iff hwords (hs.start hentry)]
    simp

/-- As long as it does not break down, a run in words has the answer of the machine. -/
theorem wordRun_eq_run {fuel : Nat} (hup : m.wordRun fuel s ≠ .brokenDown) :
    m.wordRun fuel s = .ofOption (m.run fuel s) := by
  unfold wordRun at hup ⊢
  unfold run
  cases hentry : m.entry with
  | error cause => rfl
  | ok b =>
    rw [hentry] at hup
    dsimp only at hup ⊢
    rw [ne_eq, Attempt.map_eq_brokenDown_iff] at hup
    rw [wordLoop_eq_loop hup, Attempt.map_ofOption]

/-- Words suffice for all but the last slot. In every state of every run, each computation with
words has a result, unless the next instruction sets the last slot, which the activation does not
have yet. A run in words breaks down exactly if it comes to such a state; otherwise it is the run of
the machine, and so in particular for every program that does not set the last slot. -/
theorem words_suffice (hwords : m.bytecode.InWords) (hs : m.Reachable log s) :
    (∀ s', m.Visits s s' →
      ((m.wordOps s').all WordOp.succeeds = true ↔ ¬ m.Exceeds s')) ∧
    (∀ fuel, m.wordRun fuel s = .brokenDown ↔
      ∃ b is last, m.entry = .ok b ∧ m.Trace (m.begin s b) is last ∧ is.length < fuel ∧
        m.Exceeds last) ∧
    (∀ fuel, m.wordRun fuel s ≠ .brokenDown → m.wordRun fuel s = .ofOption (m.run fuel s)) ∧
    ((∀ b ∈ m.bytecode.blueprints, ∀ i ∈ b.code, ¬ i.SetsLast) →
      ∀ fuel, m.wordRun fuel s = .ofOption (m.run fuel s)) := by
  refine ⟨?_, wordRun_eq_brokenDown_iff hwords hs, fun _ => wordRun_eq_run, ?_⟩
  · intro s' hvisits
    obtain ⟨log', hs'⟩ := hvisits.reachable hs
    exact wordOps_succeed_iff hwords hs'
  · intro hnever fuel
    apply wordRun_eq_run
    intro hdown
    -- Where the run breaks down there is an instruction that sets the last slot.
    obtain ⟨b, is, last, hentry, htrace, _, _, a, rest, i, hframes, hi, hsets, _⟩ :=
      (wordRun_eq_brokenDown_iff hwords hs fuel).1 hdown
    obtain ⟨log', hlast⟩ := Visits.reachable ⟨b, is, hentry, htrace⟩ hs
    have hb := hlast.code a (hframes ▸ List.mem_cons_self)
    exact hnever a.blueprint hb i (Array.mem_of_getElem? hi) hsets

/-- A program that sets the last slot and would then return. -/
def lastSlot : Machine where
  bytecode := .ofList
    [⟨"main", 0, #[.push .nil, .store 18446744073709551615, .push .nil, .plain .ret]⟩]

/-- The program is valid, and its run breaks down. -/
theorem wordRun_lastSlot :
    lastSlot.bytecode.isValid = true ∧
      lastSlot.wordRun 4 (lastSlot.initial {}) = .brokenDown := by
  exact ⟨by decide +kernel, rfl⟩

/-- It breaks down after its first instruction, where setting the slot has no result. -/
theorem words_suffice_lastSlot :
    lastSlot.bytecode.InWords ∧ lastSlot.Reachable [] (lastSlot.initial {}) ∧
      ∃ b is last, lastSlot.entry = .ok b ∧
        lastSlot.Trace (lastSlot.begin (lastSlot.initial {}) b) is last ∧ is.length < 2 ∧
        lastSlot.Exceeds last ∧ (lastSlot.wordOps last).all WordOp.succeeds = false := by
  have hwords : lastSlot.bytecode.InWords := by decide +kernel
  have hs : lastSlot.Reachable [] (lastSlot.initial {}) := .fresh {} none
  obtain ⟨hsteps, hdown, _⟩ := words_suffice hwords hs
  obtain ⟨b, is, last, hentry, htrace, hlength, hlast⟩ := (hdown 2).1 rfl
  refine ⟨hwords, hs, b, is, last, hentry, htrace, hlength, hlast, ?_⟩
  rw [Bool.eq_false_iff]
  intro hall
  exact (hsteps last ⟨b, is, hentry, htrace⟩).1 hall hlast

end Machine

end RecordMachine
