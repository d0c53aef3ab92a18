import RecordMachine.Proofs.Machine.Progress

/-!
# What a machine prints

On a console that never fails, all that a run prints can be read off the states in which it executed
an instruction (`Machine.output_advance`): for each of them, in this order, the text that shows the
instruction, if the machine shows its instructions, and then the text of the value that the
instruction writes, if it writes one.

Only one instruction prints and only one reads (`Action.perform_spares`). Of the console, the one
that reads changes at most what is left of the input.
-/

namespace RecordMachine

/-! ## Consoles that never fail -/

namespace Console

/-- Whatever is printed, the device takes it. -/
structure Reliable (c : Console) : Prop where
  usable : c.outputPoisoned = false
  writes : ∀ k, c.sink.writeFault k = none
  flushes : ∀ k, c.sink.flushFault k = none

/-- The console has taken a text and is otherwise as it was, still reliable. -/
structure Takes (c : Console) (text : String) (c' : Console) : Prop where
  reliable : c'.Reliable
  output : c'.output = c.output ++ text
  input : c'.input = c.input
  inputPoisoned : c'.inputPoisoned = c.inputPoisoned

/-- The consoles differ at most in what is left of the input. -/
def Quiet (c c' : Console) : Prop := ∃ input, c' = { c with input }

variable {c c' : Console}

theorem Reliable.takes_nothing (h : c.Reliable) : c.Takes "" c :=
  ⟨h, String.append_empty.symm, rfl, rfl⟩

/-- A reliable console takes what is printed. -/
theorem Reliable.print (h : c.Reliable) (text : String) :
    ∃ c', c.print text = (.ok (), c') ∧ c.Takes text c' := by
  -- An empty text is not handed to the device, and makes no difference.
  have hwrite : ∃ writes,
      c.write text = (.ok (), { c with output := c.output ++ text, writes }) := by
    unfold Console.write
    by_cases hempty : text.isEmpty = true
    · rw [if_pos hempty, String.isEmpty_iff.1 hempty, String.append_empty]
      exact ⟨c.writes, rfl⟩
    · rw [if_neg hempty]
      simp only [h.writes]
      exact ⟨c.writes + 1, rfl⟩
  obtain ⟨writes, hwrite⟩ := hwrite
  unfold Console.print
  rw [h.usable, if_neg Bool.false_ne_true, hwrite]
  unfold Console.flush
  simp only [h.flushes]
  exact ⟨_, rfl, ⟨⟨h.usable, h.writes, h.flushes⟩, rfl, rfl, rfl⟩⟩

theorem Quiet.refl (c : Console) : c.Quiet c := ⟨c.input, rfl⟩

theorem Quiet.output (h : c.Quiet c') : c'.output = c.output := by
  obtain ⟨_, rfl⟩ := h
  rfl

theorem Quiet.inputPoisoned (h : c.Quiet c') : c'.inputPoisoned = c.inputPoisoned := by
  obtain ⟨_, rfl⟩ := h
  rfl

theorem Quiet.reliable (h : c.Quiet c') (hc : c.Reliable) : c'.Reliable := by
  obtain ⟨_, rfl⟩ := h
  exact ⟨hc.usable, hc.writes, hc.flushes⟩

/-- What is read depends on the input alone. -/
theorem readLine_congr (hinput : c'.input = c.input)
    (hpoisoned : c'.inputPoisoned = c.inputPoisoned) :
    c'.readLine.1 = c.readLine.1 ∧ c'.readLine.2.input = c.readLine.2.input := by
  unfold readLine
  rw [hinput, hpoisoned]
  split
  · exact ⟨rfl, hinput⟩
  · dsimp only
    split
    · exact ⟨rfl, rfl⟩
    · exact ⟨rfl, rfl⟩

/-- Reading takes from the input at most. -/
theorem quiet_readLine (c : Console) : c.Quiet c.readLine.2 := by
  unfold readLine
  split
  · exact .refl c
  · dsimp only
    split
    · exact ⟨_, rfl⟩
    · exact ⟨_, rfl⟩

/-- Neither console ever fails, and they have the same input left. -/
structure Matches (c c' : Console) : Prop where
  left : c.Reliable
  right : c'.Reliable
  input : c'.input = c.input
  inputPoisoned : c'.inputPoisoned = c.inputPoisoned

theorem Reliable.matches_self (h : c.Reliable) : c.Matches c := ⟨h, h, rfl, rfl⟩

/-- Matching consoles can take texts of their own. -/
theorem Matches.takes (h : c.Matches c') {d d' : Console} {text text' : String}
    (hd : c.Takes text d) (hd' : c'.Takes text' d') : d.Matches d' where
  left := hd.reliable
  right := hd'.reliable
  input := by rw [hd.input, hd'.input, h.input]
  inputPoisoned := by rw [hd.inputPoisoned, hd'.inputPoisoned, h.inputPoisoned]

/-- Printing on matching consoles has the same outcome, whatever the texts are. -/
theorem Matches.print (h : c.Matches c') (text text' : String) :
    (c'.print text').1 = (c.print text).1 ∧ (c.print text).2.Matches (c'.print text').2 := by
  obtain ⟨d, hprint, hd⟩ := h.left.print text
  obtain ⟨d', hprint', hd'⟩ := h.right.print text'
  rw [hprint, hprint']
  exact ⟨rfl, h.takes hd hd'⟩

/-- Reading from matching consoles has the same outcome. -/
theorem Matches.readLine (h : c.Matches c') :
    c'.readLine.1 = c.readLine.1 ∧ c.readLine.2.Matches c'.readLine.2 := by
  obtain ⟨hline, hinput⟩ := readLine_congr h.input h.inputPoisoned
  have hquiet := c.quiet_readLine
  have hquiet' := c'.quiet_readLine
  refine ⟨hline, hquiet.reliable h.left, hquiet'.reliable h.right, hinput, ?_⟩
  rw [hquiet.inputPoisoned, hquiet'.inputPoisoned, h.inputPoisoned]

end Console

/-! ## Instructions -/

namespace Action

variable {α β : Type}

/-- What an action leaves behind, whether it fails or not. -/
def after (x : Action α) (l : Local) : Local :=
  match x l with
  | .ok _ l' => l'
  | .error _ l' => l'

/-- The action leaves the console alone. -/
def Spares (x : Action α) : Prop := ∀ l : Local, (x.after l).console = l.console

/-- Two actions that leave the console alone do so together. -/
theorem Spares.bind {x : Action α} {f : α → Action β} (hx : x.Spares) (hf : ∀ a, (f a).Spares) :
    (x >>= f).Spares := by
  intro l
  have hfirst := hx l
  unfold after at hfirst ⊢
  simp only [Bind.bind, EStateM.bind]
  cases hresult : x l with
  | ok a l' =>
    rw [hresult] at hfirst
    exact (hf a l').trans hfirst
  | error cause l' =>
    rw [hresult] at hfirst
    exact hfirst

theorem spares_pure (a : α) : (pure a : Action α).Spares := fun _ => rfl

theorem spares_lift (x : Except Cause α) : (lift x).Spares := by
  intro l
  cases x with
  | ok a => rfl
  | error cause => rfl

theorem spares_need {i : Instruction} {kind : OperandKind} {found : Option α} :
    (need i kind found).Spares := by
  intro l
  cases found with
  | none => rfl
  | some a => rfl

theorem spares_push (v : Value) : (push v).Spares := fun _ => rfl

theorem spares_pop : pop.Spares := by
  intro l
  unfold after pop
  cases l.top.pop with
  | ok taken => rfl
  | error cause => rfl

theorem spares_peek : peek.Spares := fun l => spares_lift l.top.peek l

theorem spares_load (slot : Nat) : (load slot).Spares := fun l => spares_lift (l.top.load slot) l

theorem spares_store (slot : Nat) (v : Value) : (store slot v).Spares := fun _ => rfl

theorem spares_goTo (target : Nat) : (goTo target).Spares := fun _ => rfl

theorem spares_branch (target : Nat) (v : Value) : (branch target v).Spares := by
  intro l
  rcases v with _ | _ | (_ | _) | _ | _ | _ | _ <;> rfl

theorem spares_alloc (names : List String) : (alloc names).Spares := by
  intro l
  unfold after alloc
  cases l.heap.alloc names with
  | ok made => rfl
  | error cause => rfl

theorem spares_free (id : ObjectId) : (free id).Spares := by
  intro l
  unfold after free
  cases l.heap.free id with
  | ok heap => rfl
  | error cause => rfl

theorem spares_getField (id : ObjectId) (field : String) : (getField id field).Spares :=
  fun l => spares_lift (l.heap.getField id field) l

theorem spares_setField (id : ObjectId) (field : String) (v : Value) :
    (setField id field v).Spares := by
  intro l
  unfold after setField
  cases l.heap.setField id field v with
  | ok heap => rfl
  | error cause => rfl

theorem spares_unary (f : Value → Except Cause Value) : (unary f).Spares :=
  spares_pop.bind fun _ => (spares_lift _).bind spares_push

theorem spares_binary (f : Value → Value → Except Cause Value) : (binary f).Spares :=
  spares_pop.bind fun _ => spares_pop.bind fun _ => (spares_lift _).bind spares_push

theorem Spares.next {x : Action α} (hx : x.Spares) : (x >>= fun _ => pure Flow.next).Spares :=
  hx.bind fun _ => spares_pure _

/-- Two instructions use the console; all others leave it alone. -/
theorem perform_spares {i : Instruction} (hwrite : i.opcode ≠ .write) (hread : i.opcode ≠ .read) :
    (perform i).Spares := by
  unfold perform
  cases hcase : i.opcode with
  | write => exact absurd hcase hwrite
  | read => exact absurd hcase hread
  | push => exact spares_need.bind fun _ => (spares_push _).next
  | pop => exact spares_pop.next
  | load => exact spares_need.bind fun _ => (spares_load _).bind fun _ => (spares_push _).next
  | store => exact spares_need.bind fun _ => spares_pop.bind fun _ => (spares_store _ _).next
  | add | sub | mul | div | mod | and | or
  | cmpLt | cmpLe | cmpGt | cmpGe | cmpEq | cmpNe | getChar =>
    exact (spares_binary _).next
  | neg | not | len | toInt | toDouble | toText => exact (spares_unary _).next
  | jump => exact spares_need.bind fun _ => (spares_goTo _).next
  | jumpIfFalse =>
    exact spares_need.bind fun _ => spares_pop.bind fun _ => (spares_branch _ _).next
  | call => exact spares_need.bind fun _ => spares_pure _
  | ret => exact spares_pop.bind fun _ => spares_pure _
  | alloc => exact spares_need.bind fun _ => (spares_alloc _).bind fun _ => (spares_push _).next
  | free => exact spares_pop.bind fun _ => (spares_lift _).bind fun _ => (spares_free _).next
  | setField =>
    exact spares_need.bind fun _ => spares_pop.bind fun _ => spares_pop.bind fun _ =>
      (spares_lift _).bind fun _ => (spares_setField _ _ _).next
  | getField =>
    exact spares_need.bind fun _ => spares_pop.bind fun _ => (spares_lift _).bind fun _ =>
      (spares_getField _ _).bind fun _ => (spares_push _).next
  | dup => exact spares_peek.bind fun _ => (spares_push _).next
  | swap =>
    exact spares_pop.bind fun _ => spares_pop.bind fun _ => (spares_push _).bind fun _ =>
      (spares_push _).next
  | nop => exact spares_pure _

/-- Reading a line takes it from the console and pushes it, and does nothing else. -/
theorem perform_read {i : Instruction} (hop : i.opcode = .read) (l : Local) :
    perform i l =
      match l.console.readLine with
      | (.ok line, console) => .ok .next { l with top := l.top.push (.string line), console }
      | (.error cause, console) => .error cause { l with console } := by
  unfold perform
  simp only [hop, bind, EStateM.bind, readLine]
  rcases l.console.readLine with ⟨cause | line, console⟩ <;> rfl

/-- Of the console, reading a line changes what reading from the console changes. -/
theorem console_perform_read {i : Instruction} (hop : i.opcode = .read) (l : Local) :
    ((perform i).after l).console = l.console.readLine.2 := by
  unfold after
  rw [perform_read hop]
  rcases l.console.readLine with ⟨cause | line, console⟩ <;> rfl

end Action

/-- The value that the instruction writes, with these operands. -/
def Instruction.written? (i : Instruction) (stack : List Value) : Option Value :=
  if i.opcode = .write then stack.head? else none

/-- The text of a value that may be absent. -/
def Value.textOf (v? : Option Value) : String := (v?.map Value.text).getD ""

/-- An instruction prints the value that it writes, if the console never fails. -/
theorem Action.perform_output (i : Instruction) {l : Local} (hl : l.console.Reliable) :
    ((perform i).after l).console.Reliable ∧
      ((perform i).after l).console.output =
        l.console.output ++ Value.textOf (i.written? l.top.stack) := by
  unfold Instruction.written?
  by_cases hop : i.opcode = .write
  · rw [if_pos hop]
    unfold perform
    simp only [hop]
    -- Without an operand the instruction fails and has printed nothing.
    cases hstack : l.top.stack with
    | nil =>
      have hempty : pop l = .error .emptyStack l := by
        unfold pop Activation.pop
        rw [hstack]
      simp only [after, Bind.bind, EStateM.bind, hempty]
      exact ⟨hl, String.append_empty.symm⟩
    | cons v rest =>
      have htaken : pop l = .ok v { l with top := { l.top with stack := rest } } := by
        unfold pop Activation.pop
        rw [hstack]
      obtain ⟨c, hprint, hc⟩ := hl.print v.text
      simp only [after, Bind.bind, EStateM.bind, htaken, print, hprint]
      exact ⟨hc.reliable, hc.output⟩
  · rw [if_neg hop]
    -- All others print nothing; one of them may have read.
    have hquiet : l.console.Quiet ((perform i).after l).console := by
      by_cases hread : i.opcode = .read
      · rw [console_perform_read hread]
        exact l.console.quiet_readLine
      · rw [perform_spares hop hread l]
        exact .refl l.console
    exact ⟨hquiet.reliable hl, hquiet.output.trans String.append_empty.symm⟩

/-! ## Steps -/

namespace State

def written? (s : State) : Option Value :=
  match s.frames with
  | [] => none
  | a :: _ => a.blueprint.code[a.pc]?.bind fun i => i.written? a.stack

/-- The text that shows the next instruction. -/
def block (s : State) : String :=
  match s.frames with
  | [] => ""
  | a :: _ => (a.blueprint.code[a.pc]?.map fun i => Machine.traceBlock a i s.heap).getD ""

/-- The text of the next instruction is that of the innermost activation. -/
theorem block_eq {s : State} {a : Activation} {rest : List Activation} {i : Instruction}
    (hframes : s.frames = a :: rest) (hi : a.blueprint.code[a.pc]? = some i) :
    s.block = Machine.traceBlock a i s.heap := by
  unfold block
  simp [hframes, hi]

/-- What the next instruction writes is on top of the innermost stack. -/
theorem written?_eq {s : State} {a : Activation} {rest : List Activation} {i : Instruction}
    (hframes : s.frames = a :: rest) (hi : a.blueprint.code[a.pc]? = some i) :
    s.written? = i.written? a.stack := by
  unfold written?
  simp [hframes, hi]

end State

namespace Machine

variable {m : Machine} {s : State}

/-- What a step prints: the text that shows the instruction, if that is wanted, and then the text of
the value that the instruction writes. -/
def prints (m : Machine) (s : State) : String :=
  (if m.settings.trace then s.block else "") ++ Value.textOf s.written?

/-- On a console that never fails, showing an instruction prints its text and does nothing else. -/
theorem showInstruction_of_reliable (m : Machine) (hs : s.console.Reliable) (a : Activation)
    (i : Instruction) :
    ∃ console log, m.showInstruction s a i = (.ok (), { s with console, log }) ∧
      s.console.Takes (if m.settings.trace then traceBlock a i s.heap else "") console := by
  unfold showInstruction
  cases m.settings.trace with
  | false => exact ⟨s.console, s.log, rfl, hs.takes_nothing⟩
  | true =>
    obtain ⟨c, hprint, hc⟩ := hs.print (traceBlock a i s.heap)
    refine ⟨c, (s.report (.execute a.blueprint.name a.pc i a.operands)).log, ?_, hc⟩
    simp only [if_true, State.report, hprint]

/-- The console is left as the instruction leaves it: calls and returns do not use it. -/
theorem console_execute (m : Machine) (s : State) (top : Activation) (rest : List Activation)
    (i : Instruction) (place : Location) :
    (stepOfResult place (m.execute s top rest i)).state.console =
      ((Action.perform i).after (s.focus top)).console := by
  unfold execute Action.after
  -- After the action the state is put together again, and calls and returns do not print.
  rcases Action.perform i (s.focus top) with ⟨flow, l⟩ | ⟨cause, l⟩
  · cases flow with
    | next => rfl
    | call name =>
      dsimp only
      cases henter : m.enter (s.restore l rest) l.top rest name with
      | error cause => rfl
      | ok entered =>
        obtain ⟨_, _, _, _, _, _, rfl⟩ := enter_eq_ok henter
        rfl
    | ret v =>
      cases rest with
      | nil => rfl
      | cons caller others => rfl
  · rfl

/-- A step that has an instruction to execute prints what it should. -/
theorem step_output (m : Machine) (hs : s.console.Reliable) {i : Instruction}
    (hi : s.instruction? = some i) :
    (m.step s).state.console.Reliable ∧
      (m.step s).state.console.output = s.console.output ++ m.prints s := by
  obtain ⟨a, rest, hframes, hi⟩ := State.frames_of_instruction? hi
  obtain ⟨console, log, hshow, hshown⟩ := showInstruction_of_reliable m
    (s := { s with frames := { a with pc := a.pc + 1 } :: rest }) hs a i
  -- The instruction is performed with its index advanced, on the console that has taken its text.
  obtain ⟨hreliable, houtput⟩ := Action.perform_output i (l := State.focus
    (countInstruction { s with frames := { a with pc := a.pc + 1 } :: rest, console, log } a i)
    { a with pc := a.pc + 1 }) hshown.reliable
  rw [step_of_shown hframes hi hshow, console_execute]
  refine ⟨hreliable, houtput.trans ?_⟩
  have hprints : m.prints s = (if m.settings.trace then traceBlock a i s.heap else "") ++
      Value.textOf (i.written? a.stack) := by
    unfold prints
    rw [State.block_eq hframes hi, State.written?_eq hframes hi]
  calc console.output ++ Value.textOf (i.written? a.stack)
    _ = s.console.output ++ (if m.settings.trace then traceBlock a i s.heap else "") ++
        Value.textOf (i.written? a.stack) := congrArg (· ++ _) hshown.output
    _ = s.console.output ++ m.prints s := by rw [hprints, String.append_assoc]

/-- All that a run has printed, up to any moment. -/
theorem output_advance (m : Machine) (n : Nat) (hs : s.console.Reliable) :
    (m.advance n s).state.console.output =
      s.console.output ++ String.join ((m.executed n s).map m.prints) := by
  induction n generalizing s with
  | zero => exact String.append_empty.symm
  | succ n ih =>
    rw [advance, executed]
    cases hi : s.instruction? with
    | none =>
      obtain ⟨fault, hstep⟩ := m.step_of_instruction?_none hi
      rw [hstep]
      exact String.append_empty.symm
    | some i =>
      -- The step prints also if it ends the run.
      have hprinted := step_output m hs hi
      dsimp only
      cases hstep : m.step s with
      | next mid =>
        rw [hstep] at hprinted
        rw [List.map_cons, String.join_cons, ← String.append_assoc, ← hprinted.2]
        exact ih hprinted.1
      | done v last =>
        rw [hstep] at hprinted
        simpa using hprinted.2
      | failed fault last =>
        rw [hstep] at hprinted
        simpa using hprinted.2

end Machine

end RecordMachine
