import RecordMachine.Proofs.Machine.Effects

/-!
# What a failing instruction leaves behind

An instruction looks at the operand in its code first, then takes its operands from the stack, and
only then does anything else that can fail. What it does after the last thing that can fail, such as
pushing a result or changing the heap, is therefore never done by halves.

* `Action.FailsAfter n` — if the action fails, it has taken the `n` operands on top, or all of them
  if there are fewer, and has touched nothing else but the console.
* `Action.perform_failsAfter` — every instruction is such an action, for the number of operands
  `Instruction.spent` that its opcode and its operand alone determine.
* `Machine.execute_error_intact` — hence all that a failing instruction changes of the activations
  and the heap is that these operands are gone.
-/

namespace RecordMachine

/-- The number of operands that a failing instruction has taken, if there are so many. Four of those
that work on operands fail only where there is none. -/
def Opcode.spent : Opcode → Nat
  | .pop | .store | .ret | .dup => 0
  | op => op.pops

/-- The number of operands that the failing instruction has taken: none, if the operand in its code
is not of the kind that its opcode needs. -/
def Instruction.spent (i : Instruction) : Nat :=
  match i.opcode.operandKind with
  | none => i.opcode.spent
  | some kind => if i.operand.map Operand.kind = some kind then i.opcode.spent else 0

/-- What is wrong with its code can only keep an instruction from taking operands. -/
theorem Instruction.spent_le (i : Instruction) : i.spent ≤ i.opcode.spent := by
  unfold Instruction.spent
  split
  · exact Nat.le_refl _
  · split <;> omega

namespace Operand

/-! The kind of an operand says which of the readings of it succeeds. -/

theorem kind_eq_value_iff {o : Option Operand} :
    o.map Operand.kind = some .value ↔ (value? o).isSome := by
  rcases o with _ | (_ | _ | _ | _ | _) <;> simp [value?, Operand.kind]

theorem kind_eq_slot_iff {o : Option Operand} :
    o.map Operand.kind = some .slot ↔ (slot? o).isSome := by
  rcases o with _ | (_ | _ | _ | _ | _) <;> simp [slot?, Operand.kind]

theorem kind_eq_address_iff {o : Option Operand} :
    o.map Operand.kind = some .address ↔ (address? o).isSome := by
  rcases o with _ | (_ | _ | _ | _ | _) <;> simp [address?, Operand.kind]

theorem kind_eq_name_iff {o : Option Operand} :
    o.map Operand.kind = some .name ↔ (name? o).isSome := by
  rcases o with _ | (_ | _ | _ | _ | _) <;> simp [name?, Operand.kind]

theorem kind_eq_fields_iff {o : Option Operand} :
    o.map Operand.kind = some .fields ↔ (fields? o).isSome := by
  rcases o with _ | (_ | _ | _ | _ | _) <;> simp [fields?, Operand.kind]

end Operand

/-- The `n` operands on top are gone, or all of them if there were fewer. The console may differ. -/
structure Local.Drops (l : Local) (n : Nat) (l' : Local) : Prop where
  heap : l'.heap = l.heap
  top : l'.top = { l.top with stack := l.top.stack.drop n }

/-- Nothing is gone but perhaps from the console. -/
theorem Local.drops_zero {l l' : Local} (hheap : l'.heap = l.heap) (htop : l'.top = l.top) :
    l.Drops 0 l' :=
  ⟨hheap, by simp [htop]⟩

/-- Where there are no operands, none are taken. -/
theorem Local.drops_of_empty {l : Local} (hempty : l.top.stack = []) (n : Nat) : l.Drops n l := by
  refine ⟨rfl, ?_⟩
  have hstack : l.top.stack.drop n = l.top.stack := by simp [hempty]
  rw [hstack]

namespace Action

/-! ## Actions that fail after taking operands -/

section Rules

variable {α β : Type}

def Infallible (x : Action α) : Prop := ∀ l cause l', x l ≠ .error cause l'

/-- If the action fails, it has taken the `n` operands on top and changed nothing else. -/
def FailsAfter (x : Action α) (n : Nat) : Prop :=
  ∀ l cause l', x l = .error cause l' → l.Drops n l'

/-- The action changes nothing, whether it fails or not. -/
def Reads (x : Action α) : Prop :=
  ∀ l, (∃ a, x l = .ok a l) ∨ ∃ cause, x l = .error cause l

/-- Two actions fail in the first one or in the second one. -/
theorem bind_eq_error {x : Action α} {f : α → Action β} {l l' : Local} {cause : Cause}
    (h : (x >>= f) l = .error cause l') :
    x l = .error cause l' ∨ ∃ a mid, x l = .ok a mid ∧ f a mid = .error cause l' := by
  simp only [Bind.bind, EStateM.bind] at h
  cases hx : x l with
  | ok a mid =>
    rw [hx] at h
    exact .inr ⟨a, mid, rfl, h⟩
  | error cause' mid =>
    rw [hx] at h
    exact .inl (by simpa using h)

/-- What never fails has taken whatever one likes when it fails. -/
theorem Infallible.failsAfter {x : Action α} (h : x.Infallible) (n : Nat) : x.FailsAfter n :=
  fun l cause l' hfails => absurd hfails (h l cause l')

/-- Two actions that never fail do not fail together. -/
theorem Infallible.bind {x : Action α} {f : α → Action β} (h : x.Infallible)
    (hf : ∀ a, (f a).Infallible) : (x >>= f).Infallible := by
  intro l cause l' hfails
  rcases bind_eq_error hfails with hx | ⟨a, mid, _, hmid⟩
  · exact h l cause l' hx
  · exact hf a mid cause l' hmid

theorem infallible_pure (a : α) : (pure a : Action α).Infallible := by
  intro l cause l' h
  simp [pure, EStateM.pure] at h

theorem infallible_push (v : Value) : (push v).Infallible := by
  intro l cause l' h
  simp [push] at h

theorem infallible_store (slot : Nat) (v : Value) : (store slot v).Infallible := by
  intro l cause l' h
  simp [store] at h

theorem infallible_goTo (target : Nat) : (goTo target).Infallible := by
  intro l cause l' h
  simp [goTo] at h

/-- What follows and cannot fail does not matter. -/
theorem FailsAfter.bind {x : Action α} {f : α → Action β} {n : Nat} (h : x.FailsAfter n)
    (hf : ∀ a, (f a).Infallible) : (x >>= f).FailsAfter n := by
  intro l cause l' hfails
  rcases bind_eq_error hfails with hx | ⟨a, mid, _, hmid⟩
  · exact h l cause l' hx
  · exact absurd hmid (hf a mid cause l')

/-- Taking one operand first makes it one more. -/
theorem FailsAfter.pop {f : Value → Action β} {n : Nat} (hf : ∀ v, (f v).FailsAfter n) :
    (Action.pop >>= f).FailsAfter (n + 1) := by
  intro l cause l' hfails
  cases hstack : l.top.stack with
  | nil =>
    have hpop : (Action.pop >>= f) l = .error .emptyStack l := by
      simp [Bind.bind, EStateM.bind, Action.pop, Activation.pop, hstack]
    cases hpop.symm.trans hfails
    exact Local.drops_of_empty hstack _
  | cons v rest =>
    have hpop : (Action.pop >>= f) l = f v { l with top := { l.top with stack := rest } } := by
      simp [Bind.bind, EStateM.bind, Action.pop, Activation.pop, hstack]
    have hrest := hf v _ cause l' (hpop.symm.trans hfails)
    refine ⟨hrest.heap, ?_⟩
    -- The others are taken from what is left.
    rw [hrest.top, hstack, List.drop_succ_cons]

/-- An operand that is taken and then used without fail is not missed by a failure. -/
theorem failsAfter_pop_bind {f : Value → Action β} (hf : ∀ v, (f v).Infallible) :
    (Action.pop >>= f).FailsAfter 0 := by
  intro l cause l' hfails
  rcases bind_eq_error hfails with hpop | ⟨v, mid, _, hmid⟩
  · cases hstack : l.top.stack with
    | nil =>
      simp only [Action.pop, Activation.pop, hstack] at hpop
      cases hpop
      exact Local.drops_of_empty hstack 0
    | cons v rest =>
      simp only [Action.pop, Activation.pop, hstack] at hpop
      cases hpop
  · exact absurd hmid (hf v mid cause l')

/-- Looking at something first changes nothing. -/
theorem Reads.failsAfter {x : Action α} {f : α → Action β} (h : x.Reads)
    (hf : ∀ a, (f a).FailsAfter 0) : (x >>= f).FailsAfter 0 := by
  intro l cause l' hfails
  rcases bind_eq_error hfails with hx | ⟨a, mid, hx, hmid⟩
  · rcases h l with ⟨a, hl⟩ | ⟨cause', hl⟩
    · cases hl.symm.trans hx
    · cases hl.symm.trans hx
      exact Local.drops_zero rfl rfl
  · rcases h l with ⟨a', hl⟩ | ⟨cause', hl⟩
    · cases hl.symm.trans hx
      exact hf a l cause l' hmid
    · cases hl.symm.trans hx

theorem reads_lift (x : Except Cause α) : (lift x).Reads := by
  intro l
  cases x with
  | ok a => exact .inl ⟨a, rfl⟩
  | error cause => exact .inr ⟨cause, rfl⟩

theorem reads_load (slot : Nat) : (load slot).Reads := fun l => reads_lift (l.top.load slot) l

theorem reads_peek : peek.Reads := fun l => reads_lift l.top.peek l

theorem reads_getField (id : ObjectId) (field : String) : (getField id field).Reads :=
  fun l => reads_lift (l.heap.getField id field) l

/-- A text that cannot be written costs nothing but what the console has lost. -/
theorem failsAfter_print (text : String) : (print text).FailsAfter 0 := by
  intro l cause l' hfails
  unfold print at hfails
  split at hfails
  · cases hfails
  · cases hfails
    exact Local.drops_zero rfl rfl

theorem failsAfter_readLine : readLine.FailsAfter 0 := by
  intro l cause l' hfails
  unfold readLine at hfails
  split at hfails
  · cases hfails
  · cases hfails
    exact Local.drops_zero rfl rfl

/-- An object that cannot be made leaves the heap as it was. -/
theorem failsAfter_alloc (names : List String) : (alloc names).FailsAfter 0 := by
  intro l cause l' hfails
  unfold alloc at hfails
  split at hfails
  · cases hfails
  · cases hfails
    exact Local.drops_zero rfl rfl

theorem failsAfter_free (id : ObjectId) : (free id).FailsAfter 0 := by
  intro l cause l' hfails
  unfold free at hfails
  split at hfails
  · cases hfails
  · cases hfails
    exact Local.drops_zero rfl rfl

theorem failsAfter_setField (id : ObjectId) (field : String) (v : Value) :
    (setField id field v).FailsAfter 0 := by
  intro l cause l' hfails
  unfold setField at hfails
  split at hfails
  · cases hfails
  · cases hfails
    exact Local.drops_zero rfl rfl

/-- A condition that is no truth value leaves the index where it was. -/
theorem failsAfter_branch (target : Nat) (v : Value) : (branch target v).FailsAfter 0 := by
  intro l cause l' hfails
  unfold branch at hfails
  split at hfails
  · exact absurd hfails (infallible_goTo target l cause l')
  · exact absurd hfails (infallible_pure () l cause l')
  · cases hfails
    exact Local.drops_zero rfl rfl

/-- A computation on one operand that fails has taken it. -/
theorem failsAfter_unary (f : Value → Except Cause Value) : (unary f).FailsAfter 1 :=
  .pop fun v => (reads_lift (f v)).failsAfter fun result => (infallible_push result).failsAfter 0

/-- A computation on two operands that fails has taken both. -/
theorem failsAfter_binary (f : Value → Value → Except Cause Value) : (binary f).FailsAfter 2 :=
  .pop fun v => .pop fun u => (reads_lift (f u v)).failsAfter fun result =>
    (infallible_push result).failsAfter 0

end Rules

/-! ## Instructions -/

section Instructions

variable {i : Instruction} {α : Type}

theorem FailsAfter.next {x : Action α} {n : Nat} (h : x.FailsAfter n) :
    (x >>= fun _ => pure Flow.next).FailsAfter n :=
  h.bind fun _ => infallible_pure _

/-- An action that never fails, as the last one of an instruction. -/
theorem Infallible.next {x : Action α} (h : x.Infallible) :
    (x >>= fun _ => pure Flow.next).Infallible :=
  h.bind fun _ => infallible_pure _

/-- An instruction that needs an operand in its code has taken nothing if that is not there. -/
theorem failsAfter_need {kind : OperandKind} {found : Option α} {f : α → Action Flow}
    (hkind : i.opcode.operandKind = some kind)
    (hfound : i.operand.map Operand.kind = some kind ↔ found.isSome)
    (hf : ∀ a, (f a).FailsAfter i.opcode.spent) :
    (need i kind found >>= f).FailsAfter i.spent := by
  have hspent : i.spent = if found.isSome then i.opcode.spent else 0 := by
    simp only [Instruction.spent, hkind, hfound]
  cases found with
  | some a =>
    rw [hspent]
    exact hf a
  | none =>
    rw [hspent]
    intro l cause l' hfails
    cases hfails
    exact Local.drops_zero rfl rfl

/-- An instruction that needs no operand in its code. -/
theorem failsAfter_of_operandKind {x : Action Flow} (hkind : i.opcode.operandKind = none)
    (h : x.FailsAfter i.opcode.spent) : x.FailsAfter i.spent := by
  have hspent : i.spent = i.opcode.spent := by simp only [Instruction.spent, hkind]
  rw [hspent]
  exact h

/-- A failing instruction has taken the operands that it spends, and changed nothing else. -/
theorem perform_failsAfter (i : Instruction) : (perform i).FailsAfter i.spent := by
  unfold perform
  -- One case for each opcode, in the order of its actions.
  cases hop : i.opcode with
  | push =>
    refine failsAfter_need (by rw [hop]; rfl) Operand.kind_eq_value_iff fun v => ?_
    exact (infallible_push v).next.failsAfter _
  | pop =>
    refine failsAfter_of_operandKind (by rw [hop]; rfl) ?_
    rw [hop]
    exact failsAfter_pop_bind fun _ => infallible_pure _
  | load =>
    refine failsAfter_need (by rw [hop]; rfl) Operand.kind_eq_slot_iff fun slot => ?_
    rw [hop]
    exact (reads_load slot).failsAfter fun v => (infallible_push v).next.failsAfter 0
  | store =>
    refine failsAfter_need (by rw [hop]; rfl) Operand.kind_eq_slot_iff fun slot => ?_
    rw [hop]
    exact failsAfter_pop_bind fun v => (infallible_store slot v).next
  | add | sub | mul | div | mod | and | or | cmpLt | cmpLe | cmpGt | cmpGe | cmpEq | cmpNe
  | getChar =>
    refine failsAfter_of_operandKind (by rw [hop]; rfl) ?_
    rw [hop]
    exact (failsAfter_binary _).next
  | neg | not | len | toInt | toDouble | toText =>
    refine failsAfter_of_operandKind (by rw [hop]; rfl) ?_
    rw [hop]
    exact (failsAfter_unary _).next
  | jump =>
    refine failsAfter_need (by rw [hop]; rfl) Operand.kind_eq_address_iff fun target => ?_
    exact (infallible_goTo target).next.failsAfter _
  | jumpIfFalse =>
    refine failsAfter_need (by rw [hop]; rfl) Operand.kind_eq_address_iff fun target => ?_
    rw [hop]
    exact .pop fun v => (failsAfter_branch target v).next
  | call =>
    refine failsAfter_need (by rw [hop]; rfl) Operand.kind_eq_name_iff fun name => ?_
    exact (infallible_pure _).failsAfter _
  | ret =>
    refine failsAfter_of_operandKind (by rw [hop]; rfl) ?_
    rw [hop]
    exact failsAfter_pop_bind fun v => infallible_pure _
  | write =>
    refine failsAfter_of_operandKind (by rw [hop]; rfl) ?_
    rw [hop]
    exact .pop fun v => (failsAfter_print v.text).next
  | read =>
    refine failsAfter_of_operandKind (by rw [hop]; rfl) ?_
    rw [hop]
    exact failsAfter_readLine.bind fun line => (infallible_push _).next
  | alloc =>
    refine failsAfter_need (by rw [hop]; rfl) Operand.kind_eq_fields_iff fun names => ?_
    rw [hop]
    exact (failsAfter_alloc names).bind fun id => (infallible_push _).next
  | free =>
    refine failsAfter_of_operandKind (by rw [hop]; rfl) ?_
    rw [hop]
    exact .pop fun v => (reads_lift _).failsAfter fun id => (failsAfter_free id).next
  | setField =>
    refine failsAfter_need (by rw [hop]; rfl) Operand.kind_eq_name_iff fun field => ?_
    rw [hop]
    exact .pop fun v => .pop fun target => (reads_lift _).failsAfter fun id =>
      (failsAfter_setField id field v).next
  | getField =>
    refine failsAfter_need (by rw [hop]; rfl) Operand.kind_eq_name_iff fun field => ?_
    rw [hop]
    exact .pop fun target => (reads_lift _).failsAfter fun id =>
      (reads_getField id field).failsAfter fun v => (infallible_push v).next.failsAfter 0
  | dup =>
    refine failsAfter_of_operandKind (by rw [hop]; rfl) ?_
    rw [hop]
    exact reads_peek.failsAfter fun v => (infallible_push v).next.failsAfter 0
  | swap =>
    refine failsAfter_of_operandKind (by rw [hop]; rfl) ?_
    rw [hop]
    exact .pop fun v => .pop fun u =>
      ((infallible_push v).bind fun _ => (infallible_push u).next).failsAfter 0
  | nop => exact (infallible_pure _).failsAfter _

end Instructions

end Action

/-! ## Execution -/

namespace Machine

variable {m : Machine} {s s' : State} {top : Activation} {rest : List Activation} {i : Instruction}
  {cause : Cause}

/-- A failing instruction leaves its activation with the operands that it spends gone, and the state
otherwise as it was, apart from the console. -/
theorem execute_error_drops (hfails : m.execute s top rest i = .error cause s') :
    s'.heap = s.heap ∧ s'.profile = s.profile ∧ s'.log = s.log ∧
      s'.frames = { top with stack := top.stack.drop i.spent } :: rest := by
  unfold execute at hfails
  have hends := Action.perform_ends i (s.focus top)
  unfold Action.Ends at hends
  cases hperform : Action.perform i (s.focus top) with
  | error cause' l =>
    rw [hperform] at hfails
    cases hfails
    -- The instruction itself has failed.
    have hdrops := Action.perform_failsAfter i _ cause l hperform
    exact ⟨hdrops.heap, rfl, rfl, congrArg (· :: rest) hdrops.top⟩
  | ok flow l =>
    rw [hperform] at hfails hends
    cases flow with
    | next => cases hfails
    | ret v =>
      cases rest with
      | nil => cases hfails
      | cons caller others => cases hfails
    | call name =>
      -- A call that is refused has not taken its arguments.
      obtain ⟨hop, _, rfl⟩ := hends
      have hspent : i.spent = 0 := by
        have hle := i.spent_le
        rw [hop] at hle
        exact Nat.le_zero.1 hle
      dsimp only at hfails
      split at hfails
      · cases hfails
        refine ⟨rfl, rfl, rfl, ?_⟩
        rw [hspent, List.drop_zero]
        rfl
      · cases hfails

/-- A failing instruction leaves everything but its operands intact. The heap, the profile, the log,
the number of activations and all activations below the innermost one are as before; so are the
blueprint, the slots and the index of the innermost one. Of its operands, those on top that the
instruction spends are gone and the others are still there. Seven instructions spend none. -/
theorem execute_error_intact (hframes : s.frames = top :: rest)
    (hfails : m.execute s top rest i = .error cause s') :
    s'.heap = s.heap ∧ s'.profile = s.profile ∧ s'.log = s.log ∧
    s'.callDepth = s.callDepth ∧ s'.frames.tail = s.frames.tail ∧
    ∃ top', s'.frames.head? = some top' ∧ top'.blueprint = top.blueprint ∧
      top'.slots = top.slots ∧ top'.pc = top.pc ∧
      top'.operands <+: top.operands ∧ top'.stack = top.stack.drop i.spent ∧
      (i.opcode ∈ [.push, .load, .dup, .call, .alloc, .read, .ret] →
        top'.operands = top.operands) := by
  obtain ⟨hheap, hprofile, hlog, hleft⟩ := execute_error_drops hfails
  have hdepth : s'.callDepth = s.callDepth := by
    simp only [State.callDepth, hleft, hframes, List.length_cons]
  have htail : s'.frames.tail = s.frames.tail := by simp only [hleft, hframes, List.tail_cons]
  refine ⟨hheap, hprofile, hlog, hdepth, htail, { top with stack := top.stack.drop i.spent },
    by rw [hleft, List.head?_cons], rfl, rfl, rfl, ?_, rfl, ?_⟩
  · -- Operands are listed from the bottom, so what is dropped from the top is missing at the end.
    show (top.stack.drop i.spent).reverse <+: top.stack.reverse
    rw [List.reverse_prefix]
    exact List.drop_suffix i.spent top.stack
  · intro hop
    -- These opcodes take no operand before they can fail.
    have hnone : i.opcode.spent = 0 := by
      have hall : ∀ op ∈ [Opcode.push, .load, .dup, .call, .alloc, .read, .ret], op.spent = 0 := by
        decide
      exact hall i.opcode hop
    have hspent : i.spent = 0 := Nat.le_zero.1 (hnone ▸ i.spent_le)
    show (top.stack.drop i.spent).reverse = top.stack.reverse
    rw [hspent, List.drop_zero]

end Machine

/-- An activation that has been told to set a field of a truth value. -/
def Activation.misdirected : Activation where
  blueprint := ⟨"set", 0, #[.setField "x"]⟩
  slots := [.int 3]
  stack := [.int 7, .bool true, .string "kept"]
  pc := 1

/-- The value and the target are gone, and nothing else. -/
theorem Machine.execute_error_intact_misdirected :
    let caller := Activation.enter ⟨"main", 0, #[.call "set"]⟩ []
    let s : State := { frames := [.misdirected, caller], heap := Heap.new 1111 }
    ∃ s', Machine.execute ⟨.empty, {}⟩ s .misdirected [caller] (.setField "x") =
        .error (.notObject .setField .bool) s' ∧
      s'.heap = s.heap ∧ s'.callDepth = 2 ∧ s'.frames.tail = [caller] ∧
      ∃ top', s'.frames.head? = some top' ∧ top'.slots = [.int 3] ∧ top'.pc = 1 ∧
        top'.operands = [.string "kept"] := by
  intro caller s
  have hfails : ∃ s', Machine.execute ⟨.empty, {}⟩ s .misdirected [caller] (.setField "x") =
      .error (.notObject .setField .bool) s' := ⟨_, rfl⟩
  obtain ⟨s', hfails⟩ := hfails
  obtain ⟨hheap, _, _, hdepth, htail, top', htop', _, hslots, hpc, _, hstack, _⟩ :=
    execute_error_intact rfl hfails
  refine ⟨s', hfails, hheap, hdepth, htail, top', htop', hslots, hpc, ?_⟩
  rw [Activation.operands, hstack]
  rfl

end RecordMachine
