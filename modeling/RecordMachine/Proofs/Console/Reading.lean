import RecordMachine.Proofs.Console.Lines
import RecordMachine.Proofs.Machine.Locations
import RecordMachine.Proofs.Machine.Output

/-!
# Reading the input line by line

A step takes something from the input only if it executes a READ (`Machine.Reads`), and then it
takes the first piece that is left (`Machine.step_of_reads`). All other steps, and the beginning and
the end of a run, leave the input alone. So after `k` READs, in however many runs
(`Machine.History`), what is left of the input are its pieces without the first `k`
(`Machine.History.pieces_eq`).
-/

namespace RecordMachine

/-! ## What leaves the input alone -/

/-- Nothing has been taken from the input. -/
def Console.SameInput (c c' : Console) : Prop :=
  c'.input = c.input ∧ c'.inputPoisoned = c.inputPoisoned

/-- Writing and flushing change the output and its errors only. -/
theorem Console.sameInput_print (c : Console) (text : String) : c.SameInput (c.print text).2 := by
  have hwrite : c.SameInput (c.write text).2 := by
    unfold Console.write
    split
    · exact ⟨rfl, rfl⟩
    · dsimp only
      split <;> exact ⟨rfl, rfl⟩
  unfold Console.print
  split
  · exact ⟨rfl, rfl⟩
  · generalize c.write text = answer at hwrite ⊢
    rcases answer with ⟨cause | _, written⟩
    · exact hwrite
    · unfold Console.flush
      dsimp only
      split <;> exact hwrite

/-- An instruction that does not read leaves the input alone. -/
theorem Action.sameInput_perform {i : Instruction} (hop : i.opcode ≠ .read) (l : Local) :
    l.console.SameInput ((perform i).after l).console := by
  by_cases hwrite : i.opcode = .write
  · unfold perform after
    simp only [hwrite, bind, EStateM.bind]
    cases htaken : pop l with
    | error cause l' =>
      have hsame : l'.console = l.console := by
        simpa [after, htaken] using spares_pop l
      rw [← hsame]
      exact ⟨rfl, rfl⟩
    | ok v l' =>
      have hsame : l'.console = l.console := by
        simpa [after, htaken] using spares_pop l
      have hprint := l'.console.sameInput_print v.text
      rw [hsame] at hprint
      simp only [print]
      rw [hsame]
      generalize l.console.print v.text = answer at hprint ⊢
      rcases answer with ⟨cause | _, printed⟩ <;> exact hprint
  · rw [perform_spares hwrite hop l]
    exact ⟨rfl, rfl⟩

namespace Machine

variable {m : Machine} {s s' s₀ : State} {k : Nat}

/-- Showing an instruction prints, if it does anything. -/
theorem sameInput_showInstruction (m : Machine) (s : State) (a : Activation) (i : Instruction) :
    s.console.SameInput (m.showInstruction s a i).2.console := by
  unfold showInstruction
  split
  · exact Console.sameInput_print _ _
  · exact ⟨rfl, rfl⟩

/-- The next step reads a line: its instruction is a READ, and it is executed, since showing it
first does not fail. -/
def Reads (m : Machine) (s : State) : Prop :=
  (∃ i, s.instruction? = some i ∧ i.opcode = .read) ∧ ¬m.Unshown s

/-- A step that does not read leaves the input alone. -/
theorem sameInput_step (hreads : ¬m.Reads s) :
    s.console.SameInput (m.step s).state.console := by
  cases hi : s.instruction? with
  | none =>
    obtain ⟨fault, hstep⟩ := m.step_of_instruction?_none hi
    rw [hstep]
    exact ⟨rfl, rfl⟩
  | some i =>
    obtain ⟨a, rest, hframes, hcode⟩ := State.frames_of_instruction? hi
    have hshown := m.sameInput_showInstruction
      { s with frames := { a with pc := a.pc + 1 } :: rest } a i
    cases hshow : m.showInstruction { s with frames := { a with pc := a.pc + 1 } :: rest } a i with
    | mk result shown =>
      rw [hshow] at hshown
      cases result with
      | error cause =>
        have hstep : m.step s = .failed ⟨cause, none⟩ shown := by
          unfold step
          rw [hframes]
          simp only [hcode, hshow]
        rw [hstep]
        exact hshown
      | ok _ =>
        -- The instruction is executed, so that it cannot be a READ.
        have hnever : ¬m.Unshown s := by
          rw [unshown_iff hframes hcode, hshow]
          rintro ⟨cause, _, heq⟩
          cases heq
        have hop : i.opcode ≠ .read := fun hop => hreads ⟨⟨i, hi, hop⟩, hnever⟩
        rw [step_of_shown hframes hcode hshow, console_execute]
        have hperform := Action.sameInput_perform hop
          ((countInstruction shown a i).focus { a with pc := a.pc + 1 })
        exact ⟨hperform.1.trans hshown.1, hperform.2.trans hshown.2⟩

/-! ## What a READ does -/

/-- The step goes on with the text pushed; nothing else happens to the activations and the heap. -/
def Pushes (m : Machine) (s : State) (text : String) : Prop :=
  ∃ a rest s', s.frames = a :: rest ∧ m.step s = .next s' ∧ s'.heap = s.heap ∧
    s'.frames = Activation.push { a with pc := a.pc + 1 } (.string text) :: rest

/-- The step fails at its instruction with a fault of input and output: what it reads is not
UTF-8. -/
def Garbled (m : Machine) (s : State) : Prop :=
  ∃ fault s', m.step s = .failed fault s' ∧ fault.location ≠ none ∧ fault.cause = .notUtf8 ∧
    fault.cause.kind = .io

/-- Executing a READ in full: nothing but the console decides, and nothing but the operands and the
console changes. -/
theorem execute_read {i : Instruction} (hop : i.opcode = .read) (s : State) (top : Activation)
    (rest : List Activation) :
    m.execute s top rest i =
      match s.console.readLine with
      | (.ok line, console) =>
        .ok none { s with frames := top.push (.string line) :: rest, console }
      | (.error cause, console) => .error cause { s with frames := top :: rest, console } := by
  unfold execute
  rw [Action.perform_read hop]
  simp only [State.focus]
  rcases s.console.readLine with ⟨cause | line, console⟩ <;> rfl

/-- A step that reads takes a line from the console. It pushes the line, or it fails if that has
failed. -/
theorem step_of_reads (hreads : m.Reads s) :
    (m.step s).state.console.input = s.console.readLine.2.input ∧
    (m.step s).state.console.inputPoisoned = s.console.inputPoisoned ∧
    (∀ line, s.console.readLine.1 = .ok line → m.Pushes s line) ∧
    ∀ cause, s.console.readLine.1 = .error cause →
      ∃ place s', m.step s = .failed ⟨cause, some place⟩ s' := by
  obtain ⟨⟨i, hi, hop⟩, hshows⟩ := hreads
  obtain ⟨a, rest, hframes, hcode⟩ := State.frames_of_instruction? hi
  have hinput :=
    m.sameInput_showInstruction { s with frames := { a with pc := a.pc + 1 } :: rest } a i
  obtain ⟨shown, _, hheap, _, hshow | ⟨cause, _, _, hshow⟩⟩ :=
    showInstruction_cases m { s with frames := { a with pc := a.pc + 1 } :: rest } a i
  · rw [hshow] at hinput
    -- Showing the instruction has left the input alone, so that the same line is read.
    obtain ⟨hline, hleft⟩ := Console.readLine_congr hinput.1 hinput.2
    have hquiet := shown.console.quiet_readLine.inputPoisoned.trans hinput.2
    have hstep := step_of_shown hframes hcode hshow
    have hread : (countInstruction shown a i).console.readLine = shown.console.readLine := rfl
    rw [execute_read hop, hread] at hstep
    rw [hstep, ← hleft, ← hline]
    generalize shown.console.readLine = answer at hquiet hstep ⊢
    rcases answer with ⟨cause | line, console⟩
    · refine ⟨rfl, hquiet, ?_, ?_⟩
      · rintro line ⟨⟩
      · rintro cause ⟨⟩
        exact ⟨_, _, rfl⟩
    · refine ⟨rfl, hquiet, ?_, ?_⟩
      · rintro line ⟨⟩
        exact ⟨a, rest, _, hframes, hstep, hheap, rfl⟩
      · rintro cause ⟨⟩
  · exact absurd ((unshown_iff hframes hcode).2 ⟨cause, shown, hshow⟩) hshows

/-! ## Successive READs -/

/-- The state that a step leaves behind, with the end of the run reported if it has ended. -/
def leaves (m : Machine) (s : State) : State :=
  match m.step s with
  | .next s' => s'
  | .done v s' => finish (.ok v) s'
  | .failed fault s' => finish (.error fault) s'

/-- From the state `s₀` the machine comes to another one, by steps and by beginning new runs, and
executes `k` READs on the way. -/
inductive History (m : Machine) (s₀ : State) : Nat → State → Prop where
  | refl : History m s₀ 0 s₀
  | start {k : Nat} {s : State} {b : Blueprint} (h : History m s₀ k s) (hentry : m.entry = .ok b) :
      History m s₀ k (m.begin s b)
  | read {k : Nat} {s : State} (h : History m s₀ k s) (hreads : m.Reads s) :
      History m s₀ (k + 1) (m.leaves s)
  | other {k : Nat} {s : State} (h : History m s₀ k s) (hreads : ¬m.Reads s) :
      History m s₀ k (m.leaves s)

/-- Reporting the end of a run does not touch the console. -/
theorem console_leaves (m : Machine) (s : State) :
    (m.leaves s).console = (m.step s).state.console := by
  unfold leaves
  cases m.step s <;> rfl

/-- Every step is in the history, whether it reads or not. -/
theorem History.step (h : m.History s₀ k s) : ∃ k', m.History s₀ k' (m.leaves s) := by
  by_cases hreads : m.Reads s
  · exact ⟨k + 1, h.read hreads⟩
  · exact ⟨k, h.other hreads⟩

/-- What a run comes to is part of the history of the machine. -/
theorem History.run {fuel : Nat} {result : Except Fault Value} (h : m.History s₀ k s)
    (hrun : m.run fuel s = some (result, s')) : ∃ k', m.History s₀ k' s' := by
  rcases run_cases hrun with ⟨cause, _, _, rfl⟩ | ⟨b, is, last, ended, hentry, htrace, hanswer, rfl⟩
  · exact ⟨k, h⟩
  · -- Every state of the run is one of the history, by induction on its steps.
    have hlast : ∃ k', m.History s₀ k' last := by
      refine htrace.invariant (P := fun s => ∃ k', m.History s₀ k' s) ?_ ⟨k, h.start hentry⟩
      rintro s s' ⟨k', h'⟩ hstep
      have hleaves : m.leaves s = s' := by simp [leaves, hstep]
      exact hleaves ▸ h'.step
    obtain ⟨k', hlast⟩ := hlast
    -- The last step ends the run, and `leaves` reports that end as the run does.
    have hended : m.leaves last = finish result ended := by
      unfold leaves
      cases hstep : m.step last with
      | next _ =>
        rw [hstep] at hanswer
        cases hanswer
      | done _ _ =>
        rw [hstep] at hanswer
        cases hanswer
        rfl
      | failed _ _ =>
        rw [hstep] at hanswer
        cases hanswer
        rfl
    exact hended ▸ hlast.step

/-- After `k` READs the input has lost its first `k` pieces. -/
theorem History.pieces_eq (husable : s₀.console.inputPoisoned = false) (h : m.History s₀ k s) :
    s.console.inputPoisoned = false ∧
      Console.pieces s.console.input = (Console.pieces s₀.console.input).drop k := by
  induction h with
  | refl => exact ⟨husable, rfl⟩
  | start _ _ ih => exact ih
  | read _ hreads ih =>
    -- A READ takes the first of the pieces that were left, which is the one with the number `k`.
    obtain ⟨hinput, hpoisoned, _, _⟩ := step_of_reads hreads
    rw [console_leaves]
    refine ⟨hpoisoned.trans ih.1, ?_⟩
    rw [hinput, (Console.readLine_cases ih.1).1, Console.pieces_splitLine, ih.2, List.tail_drop]
  | other _ hreads ih =>
    have hsame := sameInput_step hreads
    rw [console_leaves, hsame.1, hsame.2]
    exact ih

/-- What the next READ takes off the input: a piece, or nothing if there are no more. -/
theorem History.splitLine_fst (husable : s₀.console.inputPoisoned = false) (h : m.History s₀ k s) :
    (Console.splitLine s.console.input).1 = ((Console.pieces s₀.console.input)[k]?).getD [] := by
  rw [Console.splitLine_fst, (h.pieces_eq husable).2, List.head?_drop]

/-- The READ with the number `k`, counted from zero, is served with the piece of this number. -/
theorem History.served (husable : s₀.console.inputPoisoned = false) (h : m.History s₀ k s)
    (hreads : m.Reads s) {piece : List UInt8}
    (hpiece : ((Console.pieces s₀.console.input)[k]?).getD [] = piece) :
    (¬ByteArray.IsValidUTF8 ⟨piece.toArray⟩ → m.Garbled s) ∧
      (ByteArray.IsValidUTF8 ⟨piece.toArray⟩ →
        ∃ text, m.Pushes s text ∧ Console.Bears (Text.octets text.toList) piece) := by
  obtain ⟨_, _, hpush, hfail⟩ := step_of_reads hreads
  have hfirst := (h.splitLine_fst husable).trans hpiece
  rcases (Console.readLine_cases (h.pieces_eq husable).1).2 with
    ⟨hinvalid, herror⟩ | ⟨text, hvalid, hok, hbears⟩
  · rw [hfirst] at hinvalid
    obtain ⟨place, s', hstep⟩ := hfail _ herror
    exact ⟨fun _ => ⟨_, s', hstep, Option.some_ne_none place, rfl, rfl⟩,
      fun hvalid => absurd hvalid hinvalid⟩
  · rw [hfirst] at hvalid hbears
    exact ⟨fun hinvalid => absurd hvalid hinvalid, fun _ => ⟨text, hpush text hok, hbears⟩⟩

/-- A READ pushes the line that its piece bears. -/
theorem History.pushes_of_bears (husable : s₀.console.inputPoisoned = false) (h : m.History s₀ k s)
    (hreads : m.Reads s) {piece : List UInt8} {line : String}
    (hpiece : ((Console.pieces s₀.console.input)[k]?).getD [] = piece)
    (hvalid : ByteArray.IsValidUTF8 ⟨piece.toArray⟩)
    (hbears : Console.Bears (Text.octets line.toList) piece) : m.Pushes s line := by
  obtain ⟨text, hpushes, htext⟩ := (h.served husable hreads hpiece).2 hvalid
  have hsame : text = line := String.toList_inj.1 (Text.octets_inj (htext.unique hbears))
  exact hsame ▸ hpushes

/-- Behind the last piece there is nothing to take, and nothing is the line that an empty piece
bears. -/
theorem History.pushes_nothing (husable : s₀.console.inputPoisoned = false) (h : m.History s₀ k s)
    (hreads : m.Reads s) (hend : (Console.pieces s₀.console.input).length ≤ k) : m.Pushes s "" := by
  have hpiece : ((Console.pieces s₀.console.input)[k]?).getD [] = [] := by
    rw [List.getElem?_eq_none hend]
    rfl
  apply h.pushes_of_bears husable hreads hpiece
  · exact Text.isValidUTF8_iff.2 ⟨[], rfl⟩
  · exact .unended List.not_mem_nil

/-- Successive READs split the input into lines. After `k` READs since the state `s₀`, in one run or
in several, the next one takes exactly the piece of that number off the input: what was left of the
input is this piece and those after it, and only those are left afterwards. If the piece is not
UTF-8, the READ fails; otherwise it pushes the line that the piece bears. After the last piece,
READs take nothing and push the empty text. In particular, lines that were written with their ends
are read back as they were. -/
theorem reads_split_input (husable : s₀.console.inputPoisoned = false) (hhistory : m.History s₀ k s)
    (hreads : m.Reads s) :
    s.console.input = ((Console.pieces s₀.console.input).drop k).flatten ∧
    (m.step s).state.console.input = ((Console.pieces s₀.console.input).drop (k + 1)).flatten ∧
    (∀ piece, (Console.pieces s₀.console.input)[k]? = some piece →
      (¬ByteArray.IsValidUTF8 ⟨piece.toArray⟩ → m.Garbled s) ∧
      (ByteArray.IsValidUTF8 ⟨piece.toArray⟩ →
        ∃ text, m.Pushes s text ∧ Console.Bears (Text.octets text.toList) piece)) ∧
    ((Console.pieces s₀.console.input).length ≤ k → m.Pushes s "") ∧
    ∀ lines stop, (∀ line ∈ lines, Console.IsLine line) → Console.IsEnd stop →
      s₀.console.input = Console.written lines stop → m.Pushes s (lines[k]?.getD "") := by
  refine ⟨?_, ?_, ?_, hhistory.pushes_nothing husable hreads, ?_⟩
  · rw [← (hhistory.pieces_eq husable).2, Console.flatten_pieces]
  · rw [← ((hhistory.read hreads).pieces_eq husable).2, Console.flatten_pieces, console_leaves]
  · intro piece hpiece
    exact hhistory.served husable hreads (by rw [hpiece, Option.getD_some])
  · intro lines stop hlines hstop hinput
    -- The pieces of this input are the lines with their ends, so the piece of a number bears the
    -- line of that number.
    have hpieces := Console.pieces_written hlines hstop
    rw [← hinput] at hpieces
    cases hline : lines[k]? with
    | none =>
      have hlength : lines.length ≤ k := List.getElem?_eq_none_iff.1 hline
      refine hhistory.pushes_nothing husable hreads ?_
      rw [hpieces, List.length_map]
      exact hlength
    | some line =>
      have hmem : line ∈ lines := List.mem_of_getElem? hline
      apply hhistory.pushes_of_bears husable hreads ?_ (Console.isValidUTF8_written line hstop)
        (Console.bears_written (hlines line hmem) hstop)
      rw [hpieces, List.getElem?_map, hline]
      rfl

/-- A function that reads two lines. -/
def readingMain : Blueprint := ⟨"main", 0, #[.plain .read, .plain .read, .plain .ret]⟩

def readingTwice : Machine where
  bytecode := .ofList [readingMain]

/-- Its state before an input of three pieces, the second of which is not UTF-8. -/
def garbledStart : State :=
  readingTwice.initial { input := [97, 98, 13, 10, 255, 10, 99, 13] }

/-- The first run reads a line and fails at the second piece. The next run reads the third piece,
which keeps its carriage return since no newline follows it. -/
theorem reads_split_input_garbled :
    garbledStart.console.inputPoisoned = false ∧
    ∃ s, readingTwice.History garbledStart 2 s ∧ readingTwice.Reads s ∧
      readingTwice.Pushes s "c\r" := by
  have hreads : ∀ s : State, s.instruction? = some (.plain .read) → readingTwice.Reads s :=
    fun s hs => ⟨⟨_, hs, rfl⟩, fun hunshown => Bool.false_ne_true hunshown.1⟩
  have hentry : readingTwice.entry = .ok readingMain := rfl
  have hstart : readingTwice.History garbledStart 0 garbledStart := .refl
  have hread := (hstart.start hentry).read (hreads _ rfl)
  have hfailed := hread.read (hreads _ (by decide +kernel))
  have hstarted := hfailed.start hentry
  have hnext : ∀ s, readingTwice.Reads (readingTwice.begin s readingMain) := fun s => hreads _ rfl
  refine ⟨rfl, _, hstarted, hnext _, ?_⟩
  obtain ⟨_, _, hserved, _, _⟩ := reads_split_input rfl hstarted (hnext _)
  obtain ⟨text, hpushes, hbears⟩ := (hserved [99, 13] (by decide)).2
    (Text.isValidUTF8_iff.2 ⟨['c', '\r'], by decide⟩)
  have hline : Text.octets text.toList = [99, 13] := hbears.unique (.unended (by decide))
  have htext : text = "c\r" := by
    apply String.toList_inj.1
    apply Text.octets_inj
    rw [hline]
    decide
  exact htext ▸ hpushes

end Machine

end RecordMachine
