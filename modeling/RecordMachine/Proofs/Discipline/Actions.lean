import RecordMachine.Machine.Local
import RecordMachine.Proofs.Discipline.Marks
import RecordMachine.Proofs.Machine.Computations
import RecordMachine.Proofs.Machine.Runs

/-!
# What instructions do to operands and slots

`Action.Does x l post` says that an action either gives a result for which `post` holds, or fails
for a reason that lies in the values and not in the code: no operand is missing, no slot, no
function and no operand of the instruction. Primitive actions have one lemma each, and from these an
instruction that applies where a mark holds does what `Instruction.after` and
`Instruction.successors` say (`Action.perform_does`).
-/

namespace RecordMachine

/-- Whether a fault of this category can only come from code that is wrong in itself. -/
def FaultKind.isStructural : FaultKind → Bool
  | .stackUnderflow | .invalidSlot | .malformedInstruction | .unknownFunction => true
  | _ => false

/-! ## Faults of values, heap and console -/

/-- A computation that never fails for a structural reason. -/
def Harmless {α : Type} (x : Except Cause α) : Prop :=
  ∀ cause, x = .error cause → cause.kind.isStructural = false

theorem harmless_ok {α : Type} (a : α) : Harmless (.ok a) := by
  rintro _ ⟨⟩

theorem harmless_error {α : Type} {cause : Cause} (h : cause.kind.isStructural = false) :
    Harmless (.error cause : Except Cause α) := by
  rintro _ ⟨⟩
  exact h

/-- A complaint about the values of operands is none about their number. -/
theorem FaultKind.isStructural_of_isAboutOperands {kind : FaultKind}
    (h : kind.isAboutOperands = true) : kind.isStructural = false := by
  cases kind <;> cases h <;> rfl

/-- What is computed from operands alone fails only because of their values. -/
theorem harmless_of_isComputed {x : Except Cause Value} (h : isComputed x = true) : Harmless x := by
  rintro cause rfl
  exact FaultKind.isStructural_of_isAboutOperands h

/-- An access to something that is no object is refused because of its value. -/
theorem Value.harmless_target (op : Opcode) (v : Value) : Harmless (v.target op) :=
  fun _ herror => FaultKind.isStructural_of_isAboutOperands (isAboutOperands_of_target herror)

namespace Heap

/-- All that can go wrong is that ids run out. -/
theorem harmless_alloc (h : Heap) (names : List String) : Harmless (h.alloc names) := by
  unfold alloc
  dsimp only
  split
  · exact harmless_ok _
  · exact harmless_error rfl

/-- An id may belong to no object, or to one that was freed, whatever the code is. -/
theorem harmless_object (h : Heap) (id : ObjectId) : Harmless (h.object id) := by
  unfold object
  split
  · exact harmless_error rfl
  · split
    · exact harmless_ok _
    · exact harmless_error rfl
    · exact harmless_error rfl

theorem harmless_free (h : Heap) (id : ObjectId) : Harmless (h.free id) := by
  unfold free
  split
  · exact harmless_ok _
  · next hobject => exact harmless_error (h.harmless_object id _ hobject)

/-- The field may be missing; which object it is, the code cannot tell. -/
theorem harmless_getField (h : Heap) (id : ObjectId) (field : String) :
    Harmless (h.getField id field) := by
  unfold getField
  split
  · split
    · exact harmless_ok _
    · exact harmless_error rfl
  · next hobject => exact harmless_error (h.harmless_object id _ hobject)

theorem harmless_setField (h : Heap) (id : ObjectId) (field : String) (v : Value) :
    Harmless (h.setField id field v) := by
  unfold setField
  split
  · split
    · exact harmless_ok _
    · exact harmless_error rfl
  · next hobject => exact harmless_error (h.harmless_object id _ hobject)

end Heap

/-! ## Primitive actions -/

/-- What the innermost activation has: its blueprint, the index behind the instruction, the number
of operands and the number of slots. -/
structure Local.Has (l : Local) (b : Blueprint) (pc depth slots : Nat) : Prop where
  blueprint : l.top.blueprint = b
  pc : l.top.pc = pc
  depth : l.top.stack.length = depth
  slots : l.top.slots.length = slots

/-- The action gives a result for which `post` holds, or fails for no structural reason. -/
def Action.Does {α : Type} (x : Action α) (l : Local) (post : α → Local → Prop) : Prop :=
  match x l with
  | .ok a l' => post a l'
  | .error cause _ => cause.kind.isStructural = false

namespace Action

variable {α β : Type} {l : Local} {b : Blueprint} {pc depth slots : Nat}

/-- Actions that follow each other: `post` is asked of the second one, in the state that the first
one leaves. -/
theorem Does.bind {x : Action α} {f : α → Action β} {post : β → Local → Prop}
    (h : x.Does l fun a l' => (f a).Does l' post) : (x >>= f).Does l post := by
  unfold Does at h ⊢
  simp only [Bind.bind, EStateM.bind]
  cases hx : x l with
  | ok a l' =>
    rw [hx] at h
    exact h
  | error cause l' =>
    rw [hx] at h
    exact h

theorem Does.imp {x : Action α} {post post' : α → Local → Prop} (h : x.Does l post)
    (hpost : ∀ a l', post a l' → post' a l') : x.Does l post' := by
  unfold Does at h ⊢
  cases hx : x l with
  | ok a l' =>
    rw [hx] at h
    exact hpost a l' h
  | error cause l' =>
    rw [hx] at h
    exact h

theorem does_pure {a : α} {post : α → Local → Prop} (h : post a l) :
    (pure a : Action α).Does l post := h

/-- An instruction that has its operand is not malformed. -/
theorem does_need {i : Instruction} {kind : OperandKind} {found : Option α} {a : α}
    {post : α → Local → Prop} (hfound : found = some a) (h : post a l) :
    (need i kind found).Does l post := by
  subst hfound
  exact h

/-- A computation beside the activation changes nothing in it. -/
theorem does_lift {x : Except Cause α} (hx : Harmless x) (hhas : l.Has b pc depth slots) :
    (lift x).Does l fun _ l' => l'.Has b pc depth slots := by
  cases x with
  | ok a => exact hhas
  | error cause => exact hx cause rfl

theorem does_push {v : Value} (hhas : l.Has b pc depth slots) :
    (push v).Does l fun _ l' => l'.Has b pc (depth + 1) slots :=
  ⟨hhas.blueprint, hhas.pc, congrArg (· + 1) hhas.depth, hhas.slots⟩

/-- There is an operand to take, since the depth is a successor. -/
theorem does_pop (hhas : l.Has b pc (depth + 1) slots) :
    pop.Does l fun _ l' => l'.Has b pc depth slots := by
  unfold Does pop Activation.pop
  cases hstack : l.top.stack with
  | nil =>
    have hdepth := hhas.depth
    rw [hstack] at hdepth
    cases hdepth
  | cons v rest =>
    have hdepth := hhas.depth
    rw [hstack] at hdepth
    exact ⟨hhas.blueprint, hhas.pc, Nat.succ.inj hdepth, hhas.slots⟩

theorem does_peek (hhas : l.Has b pc (depth + 1) slots) :
    peek.Does l fun _ l' => l'.Has b pc (depth + 1) slots := by
  unfold Does peek Activation.peek
  cases hstack : l.top.stack with
  | nil =>
    have hdepth := hhas.depth
    rw [hstack] at hdepth
    cases hdepth
  | cons v rest => exact hhas

/-- The slot exists, since its number is below that of the slots. -/
theorem does_load {slot : Nat} (hslot : slot < slots) (hhas : l.Has b pc depth slots) :
    (load slot).Does l fun _ l' => l'.Has b pc depth slots := by
  have hlt : slot < l.top.slots.length := by
    rw [hhas.slots]
    exact hslot
  unfold Does load Activation.load
  rw [List.getElem?_eq_getElem hlt]
  exact hhas

/-- Storing behind the slots adds all slots up to the one that is stored to. -/
theorem does_store {slot : Nat} {v : Value} (hhas : l.Has b pc depth slots) :
    (store slot v).Does l fun _ l' => l'.Has b pc depth (max slots (slot + 1)) := by
  have hslots := hhas.slots
  unfold Does store Activation.store
  dsimp only
  split
  · next hlt =>
    refine ⟨hhas.blueprint, hhas.pc, hhas.depth, ?_⟩
    rw [List.length_set]
    omega
  · next hge =>
    refine ⟨hhas.blueprint, hhas.pc, hhas.depth, ?_⟩
    simp only [List.length_append, List.length_replicate, List.length_cons, List.length_nil]
    omega

theorem does_goTo {target : Nat} (hhas : l.Has b pc depth slots) :
    (goTo target).Does l fun _ l' => l'.Has b target depth slots :=
  ⟨hhas.blueprint, rfl, hhas.depth, hhas.slots⟩

/-- The console may fail, which is no structural reason. -/
theorem does_print {text : String} (hhas : l.Has b pc depth slots) :
    (print text).Does l fun _ l' => l'.Has b pc depth slots := by
  unfold Does print
  rcases hprint : l.console.print text with ⟨_ | _, console⟩
  · have hkind := Console.kind_of_print_error hprint
    dsimp only
    rw [hkind]
    rfl
  · exact ⟨hhas.blueprint, hhas.pc, hhas.depth, hhas.slots⟩

theorem does_readLine (hhas : l.Has b pc depth slots) :
    readLine.Does l fun _ l' => l'.Has b pc depth slots := by
  unfold Does readLine
  rcases hread : l.console.readLine with ⟨_ | _, console⟩
  · have hkind := Console.kind_of_readLine_error hread
    dsimp only
    rw [hkind]
    rfl
  · exact ⟨hhas.blueprint, hhas.pc, hhas.depth, hhas.slots⟩

/-- The heap changes, the activation does not. -/
theorem does_alloc {names : List String} (hhas : l.Has b pc depth slots) :
    (alloc names).Does l fun _ l' => l'.Has b pc depth slots := by
  unfold Does alloc
  cases hheap : l.heap.alloc names with
  | error cause => exact l.heap.harmless_alloc names cause hheap
  | ok result => exact ⟨hhas.blueprint, hhas.pc, hhas.depth, hhas.slots⟩

theorem does_free {id : ObjectId} (hhas : l.Has b pc depth slots) :
    (free id).Does l fun _ l' => l'.Has b pc depth slots := by
  unfold Does free
  cases hheap : l.heap.free id with
  | error cause => exact l.heap.harmless_free id cause hheap
  | ok heap => exact ⟨hhas.blueprint, hhas.pc, hhas.depth, hhas.slots⟩

theorem does_setField {id : ObjectId} {field : String} {v : Value} (hhas : l.Has b pc depth slots) :
    (setField id field v).Does l fun _ l' => l'.Has b pc depth slots := by
  unfold Does setField
  cases hheap : l.heap.setField id field v with
  | error cause => exact l.heap.harmless_setField id field v cause hheap
  | ok heap => exact ⟨hhas.blueprint, hhas.pc, hhas.depth, hhas.slots⟩

theorem does_getField {id : ObjectId} {field : String} (hhas : l.Has b pc depth slots) :
    (getField id field).Does l fun _ l' => l'.Has b pc depth slots :=
  does_lift (l.heap.harmless_getField id field) hhas

/-- One operand is taken and the result pushed, so that the depth is the same again. -/
theorem does_unary {f : Value → Except Cause Value} (hf : ∀ v, isComputed (f v) = true)
    (hhas : l.Has b pc (depth + 1) slots) :
    (unary f).Does l fun _ l' => l'.Has b pc (depth + 1) slots := by
  refine .bind ((does_pop hhas).imp ?_)
  intro v l₁ h₁
  refine .bind ((does_lift (harmless_of_isComputed (hf v)) h₁).imp ?_)
  intro result l₂ h₂
  exact does_push h₂

/-- Two operands are taken and the result pushed, so that the depth has become one less. -/
theorem does_binary {f : Value → Value → Except Cause Value}
    (hf : ∀ u v, isComputed (f u v) = true) (hhas : l.Has b pc (depth + 1 + 1) slots) :
    (binary f).Does l fun _ l' => l'.Has b pc (depth + 1) slots := by
  refine .bind ((does_pop hhas).imp ?_)
  intro v l₁ h₁
  refine .bind ((does_pop h₁).imp ?_)
  intro u l₂ h₂
  refine .bind ((does_lift (harmless_of_isComputed (hf u v)) h₂).imp ?_)
  intro result l₃ h₃
  exact does_push h₃

end Action

/-! ## Instructions -/

/-- Where an instruction leads from what the innermost activation has: on, with what the instruction
leaves, into a call with nothing changed, or to a return. -/
def Instruction.Leads (arity : String → Option Nat) (i : Instruction) (b : Blueprint)
    (pc depth slots : Nat) (l : Local) : Flow → Local → Prop
  | .next, l' => ∃ pc' ∈ i.successors pc,
      l'.Has b pc' (depth - i.demand arity + i.opcode.pushes) (i.gain slots)
  | .call name, l' => i.opcode = .call ∧ i.operand = some (.name name) ∧ l' = l
  | .ret _, _ => i.opcode = .ret

namespace Operand

/-- An operand of the right kind is one of the right form. So are those of the other kinds. -/
theorem exists_value {o : Option Operand} (h : o.map Operand.kind = some .value) :
    ∃ v, o = some (.value v) := by
  rcases o with _ | (v | _ | _ | _ | _) <;> cases h
  exact ⟨v, rfl⟩

theorem exists_slot {o : Option Operand} (h : o.map Operand.kind = some .slot) :
    ∃ slot, o = some (.slot slot) := by
  rcases o with _ | (_ | slot | _ | _ | _) <;> cases h
  exact ⟨slot, rfl⟩

theorem exists_address {o : Option Operand} (h : o.map Operand.kind = some .address) :
    ∃ target, o = some (.address target) := by
  rcases o with _ | (_ | _ | target | _ | _) <;> cases h
  exact ⟨target, rfl⟩

theorem exists_name {o : Option Operand} (h : o.map Operand.kind = some .name) :
    ∃ name, o = some (.name name) := by
  rcases o with _ | (_ | _ | _ | name | _) <;> cases h
  exact ⟨name, rfl⟩

theorem exists_fields {o : Option Operand} (h : o.map Operand.kind = some .fields) :
    ∃ names, o = some (.fields names) := by
  rcases o with _ | (_ | _ | _ | _ | names) <;> cases h
  exact ⟨names, rfl⟩

end Operand

namespace Action

variable {arity : String → Option Nat} {b : Blueprint} {pc slots : Nat}

/-- The last action of an instruction that goes on, at `pc'`. -/
theorem Does.next {α : Type} {i : Instruction} {x : Action α} {depth pc' : Nat} {l l₀ : Local}
    (hpc : pc' ∈ i.successors pc)
    (h : x.Does l fun _ l' =>
      l'.Has b pc' (depth - i.demand arity + i.opcode.pushes) (i.gain slots)) :
    (x >>= fun _ => pure .next).Does l (i.Leads arity b pc depth slots l₀) := by
  refine .bind (h.imp ?_)
  intro _ l' h'
  exact ⟨pc', hpc, h'⟩

/-- An instruction that applies where a mark holds does what it says to operands and slots, leads to
one of its successors, and fails for no structural reason. -/
theorem perform_does {i : Instruction} {k : Mark} (happlies : i.Applies arity k) {l : Local}
    (hhas : l.Has b pc k.depth slots) (hreach : k.reach ≤ slots) :
    (perform i).Does l (i.Leads arity b pc k.depth slots l) := by
  obtain ⟨opcode, operand, comment⟩ := i
  obtain ⟨depth, reach⟩ := k
  have hoperand := happlies.operand
  have henough := happlies.enough
  have hloaded := happlies.loaded
  clear happlies
  -- One case for each opcode: first its operand, then what it takes, then what it leaves.
  cases opcode with
  | push =>
    obtain ⟨v, rfl⟩ := Operand.exists_value hoperand
    exact .bind (does_need rfl (.next List.mem_cons_self (does_push hhas)))
  | pop =>
    obtain ⟨depth, rfl⟩ := Nat.exists_eq_add_of_le' henough
    exact .next List.mem_cons_self (does_pop hhas)
  | load =>
    obtain ⟨slot, rfl⟩ := Operand.exists_slot hoperand
    have hslot : slot < slots := Nat.lt_of_lt_of_le (hloaded slot rfl rfl) hreach
    refine .bind (does_need rfl (.bind ((does_load hslot hhas).imp ?_)))
    intro v l₁ h₁
    exact .next List.mem_cons_self (does_push h₁)
  | store =>
    obtain ⟨slot, rfl⟩ := Operand.exists_slot hoperand
    obtain ⟨depth, rfl⟩ := Nat.exists_eq_add_of_le' henough
    refine .bind (does_need rfl (.bind ((does_pop hhas).imp ?_)))
    intro v l₁ h₁
    exact .next List.mem_cons_self (does_store h₁)
  | add | sub | mul | div | mod =>
    obtain ⟨depth, rfl⟩ := Nat.exists_eq_add_of_le' henough
    exact .next List.mem_cons_self (does_binary (Value.isComputed_arithmetic _) hhas)
  | neg =>
    obtain ⟨depth, rfl⟩ := Nat.exists_eq_add_of_le' henough
    exact .next List.mem_cons_self (does_unary Value.isComputed_negate hhas)
  | and | or =>
    obtain ⟨depth, rfl⟩ := Nat.exists_eq_add_of_le' henough
    exact .next List.mem_cons_self (does_binary (Value.isComputed_logic _) hhas)
  | not =>
    obtain ⟨depth, rfl⟩ := Nat.exists_eq_add_of_le' henough
    exact .next List.mem_cons_self (does_unary Value.isComputed_complement hhas)
  | cmpLt | cmpLe | cmpGt | cmpGe | cmpEq | cmpNe =>
    obtain ⟨depth, rfl⟩ := Nat.exists_eq_add_of_le' henough
    exact .next List.mem_cons_self (does_binary (Value.isComputed_comparison _) hhas)
  | jump =>
    obtain ⟨target, rfl⟩ := Operand.exists_address hoperand
    exact .bind (does_need rfl (.next List.mem_cons_self (does_goTo hhas)))
  | jumpIfFalse =>
    obtain ⟨target, rfl⟩ := Operand.exists_address hoperand
    obtain ⟨depth, rfl⟩ := Nat.exists_eq_add_of_le' henough
    refine .bind (does_need rfl (.bind ((does_pop hhas).imp ?_)))
    intro v l₁ h₁
    -- `false` jumps, `true` goes on, and anything else is refused because of its value.
    rcases v with _ | _ | (_ | _) | _ | _ | _ | _
    case bool.false => exact .next (List.mem_cons_of_mem _ List.mem_cons_self) (does_goTo h₁)
    case bool.true => exact .next List.mem_cons_self (does_pure h₁)
    all_goals rfl
  | call =>
    obtain ⟨name, rfl⟩ := Operand.exists_name hoperand
    exact .bind (does_need rfl ⟨rfl, rfl, rfl⟩)
  | ret =>
    obtain ⟨depth, rfl⟩ := Nat.exists_eq_add_of_le' henough
    refine .bind ((does_pop hhas).imp ?_)
    intro v l₁ h₁
    exact does_pure rfl
  | write =>
    obtain ⟨depth, rfl⟩ := Nat.exists_eq_add_of_le' henough
    refine .bind ((does_pop hhas).imp ?_)
    intro v l₁ h₁
    exact .next List.mem_cons_self (does_print h₁)
  | read =>
    refine .bind ((does_readLine hhas).imp ?_)
    intro line l₁ h₁
    exact .next List.mem_cons_self (does_push h₁)
  | len =>
    obtain ⟨depth, rfl⟩ := Nat.exists_eq_add_of_le' henough
    exact .next List.mem_cons_self (does_unary Value.isComputed_length hhas)
  | getChar =>
    obtain ⟨depth, rfl⟩ := Nat.exists_eq_add_of_le' henough
    exact .next List.mem_cons_self (does_binary Value.isComputed_charAt hhas)
  | toInt =>
    obtain ⟨depth, rfl⟩ := Nat.exists_eq_add_of_le' henough
    exact .next List.mem_cons_self (does_unary Value.isComputed_toInt hhas)
  | toDouble =>
    obtain ⟨depth, rfl⟩ := Nat.exists_eq_add_of_le' henough
    exact .next List.mem_cons_self (does_unary Value.isComputed_toDouble hhas)
  | toText =>
    obtain ⟨depth, rfl⟩ := Nat.exists_eq_add_of_le' henough
    exact .next List.mem_cons_self (does_unary Value.isComputed_toText hhas)
  | alloc =>
    obtain ⟨names, rfl⟩ := Operand.exists_fields hoperand
    refine .bind (does_need rfl (.bind ((does_alloc hhas).imp ?_)))
    intro id l₁ h₁
    exact .next List.mem_cons_self (does_push h₁)
  | free =>
    obtain ⟨depth, rfl⟩ := Nat.exists_eq_add_of_le' henough
    refine .bind ((does_pop hhas).imp ?_)
    intro target l₁ h₁
    refine .bind ((does_lift (Value.harmless_target _ target) h₁).imp ?_)
    intro id l₂ h₂
    exact .next List.mem_cons_self (does_free h₂)
  | setField =>
    obtain ⟨name, rfl⟩ := Operand.exists_name hoperand
    obtain ⟨depth, rfl⟩ := Nat.exists_eq_add_of_le' henough
    refine .bind (does_need rfl (.bind ((does_pop hhas).imp ?_)))
    intro v l₁ h₁
    refine .bind ((does_pop h₁).imp ?_)
    intro target l₂ h₂
    refine .bind ((does_lift (Value.harmless_target _ target) h₂).imp ?_)
    intro id l₃ h₃
    exact .next List.mem_cons_self (does_setField h₃)
  | getField =>
    obtain ⟨name, rfl⟩ := Operand.exists_name hoperand
    obtain ⟨depth, rfl⟩ := Nat.exists_eq_add_of_le' henough
    refine .bind (does_need rfl (.bind ((does_pop hhas).imp ?_)))
    intro target l₁ h₁
    refine .bind ((does_lift (Value.harmless_target _ target) h₁).imp ?_)
    intro id l₂ h₂
    refine .bind ((does_getField h₂).imp ?_)
    intro v l₃ h₃
    exact .next List.mem_cons_self (does_push h₃)
  | dup =>
    obtain ⟨depth, rfl⟩ := Nat.exists_eq_add_of_le' henough
    refine .bind ((does_peek hhas).imp ?_)
    intro v l₁ h₁
    exact .next List.mem_cons_self (does_push h₁)
  | swap =>
    obtain ⟨depth, rfl⟩ := Nat.exists_eq_add_of_le' henough
    refine .bind ((does_pop hhas).imp ?_)
    intro v l₁ h₁
    refine .bind ((does_pop h₁).imp ?_)
    intro u l₂ h₂
    refine .bind ((does_push h₂).imp ?_)
    intro _ l₃ h₃
    exact .next List.mem_cons_self (does_push h₃)
  | nop => exact does_pure ⟨pc, List.mem_cons_self, hhas⟩

end Action

end RecordMachine
