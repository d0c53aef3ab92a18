import RecordMachine.Proofs.Machine.Computations
import RecordMachine.Proofs.Machine.Runs

/-!
# What an instruction can do

`Action.perform` says how each instruction is carried out. For what stays true along a run it
matters only what an instruction can change, and this is said here once for all opcodes:

* `Instruction.Effect` — what an instruction that goes on does to its activation and to the heap.
  Where a value is pushed that may be an object, the relation says where that value came from.
* `Instruction.Fails` — what an instruction that fails leaves behind, and what it blames. It has
  taken operands at most.

`Action.perform_ends` shows that there is nothing else. It works through an instruction from its
first action to the last one by the rules for `Action.Ends`.
-/

namespace RecordMachine

/-! ## Effects and failures -/

/-- Whether the instruction makes a value out of operands or input alone. -/
def Opcode.computes : Opcode → Bool
  | .add | .sub | .mul | .div | .mod | .neg | .and | .or | .not
  | .cmpLt | .cmpLe | .cmpGt | .cmpGe | .cmpEq | .cmpNe
  | .read | .len | .getChar | .toInt | .toDouble | .toText => true
  | _ => false

/-- What an instruction that goes on does to its activation, whose index has been advanced, and to
the heap. -/
inductive Instruction.Effect (i : Instruction) (a : Activation) (h : Heap) :
    Activation → Heap → Prop where
  | push {v : Value} (hop : i.opcode = .push) (hv : Operand.value? i.operand = some v) :
      Effect i a h (a.push v) h
  | pop {v : Value} {rest : List Value} (hop : i.opcode = .pop) (hstack : a.stack = v :: rest) :
      Effect i a h { a with stack := rest } h
  | load {slot : Nat} {v : Value} (hop : i.opcode = .load)
      (hslot : Operand.slot? i.operand = some slot) (hv : a.slots[slot]? = some v) :
      Effect i a h (a.push v) h
  | store {slot : Nat} {v : Value} {rest : List Value} (hop : i.opcode = .store)
      (hslot : Operand.slot? i.operand = some slot) (hstack : a.stack = v :: rest) :
      Effect i a h (Activation.store { a with stack := rest } slot v) h
  | compute {taken rest : List Value} {v : Value} (hop : i.opcode.computes = true)
      (hstack : a.stack = taken ++ rest) (hv : v.tag ≠ .object) :
      Effect i a h { a with stack := v :: rest } h
  | jump {target : Nat} (hop : i.opcode = .jump) (htarget : i.jumpTarget? = some target) :
      Effect i a h { a with pc := target } h
  | branch {target : Nat} {b : Bool} {rest : List Value} (hop : i.opcode = .jumpIfFalse)
      (htarget : i.jumpTarget? = some target) (hstack : a.stack = .bool b :: rest) :
      Effect i a h { a with stack := rest, pc := if b then a.pc else target } h
  | write {v : Value} {rest : List Value} (hop : i.opcode = .write) (hstack : a.stack = v :: rest) :
      Effect i a h { a with stack := rest } h
  | alloc {names : List String} {id : ObjectId} {h' : Heap} (hop : i.opcode = .alloc)
      (hnames : Operand.fields? i.operand = some names) (halloc : h.alloc names = .ok (id, h')) :
      Effect i a h (a.push (.object id)) h'
  | free {id : ObjectId} {rest : List Value} {h' : Heap} (hop : i.opcode = .free)
      (hstack : a.stack = .object id :: rest) (hfree : h.free id = .ok h') :
      Effect i a h { a with stack := rest } h'
  | setField {field : String} {v : Value} {id : ObjectId} {rest : List Value} {h' : Heap}
      (hop : i.opcode = .setField) (hfield : Operand.name? i.operand = some field)
      (hstack : a.stack = v :: .object id :: rest) (hset : h.setField id field v = .ok h') :
      Effect i a h { a with stack := rest } h'
  | getField {field : String} {v : Value} {id : ObjectId} {rest : List Value}
      (hop : i.opcode = .getField) (hfield : Operand.name? i.operand = some field)
      (hstack : a.stack = .object id :: rest) (hget : h.getField id field = .ok v) :
      Effect i a h { a with stack := v :: rest } h
  | dup {v : Value} {rest : List Value} (hop : i.opcode = .dup) (hstack : a.stack = v :: rest) :
      Effect i a h (a.push v) h
  | swap {u v : Value} {rest : List Value} (hop : i.opcode = .swap)
      (hstack : a.stack = v :: u :: rest) :
      Effect i a h { a with stack := u :: v :: rest } h
  | nop (hop : i.opcode = .nop) : Effect i a h a h

/-- Storing leaves the blueprint. -/
theorem Activation.blueprint_store (a : Activation) (slot : Nat) (v : Value) :
    (a.store slot v).blueprint = a.blueprint := by
  unfold Activation.store
  split <;> rfl

theorem Activation.pc_store (a : Activation) (slot : Nat) (v : Value) :
    (a.store slot v).pc = a.pc := by
  unfold Activation.store
  split <;> rfl

/-- An instruction that goes on stays in its function. -/
theorem Instruction.Effect.blueprint_eq {i : Instruction} {a top : Activation} {h h' : Heap}
    (heffect : i.Effect a h top h') : top.blueprint = a.blueprint := by
  cases heffect with
  | store => exact Activation.blueprint_store _ _ _
  | _ => rfl

/-- An instruction that goes on does so where it stands or at the target of its jump. -/
theorem Instruction.Effect.pc_eq {i : Instruction} {a top : Activation} {h h' : Heap}
    (heffect : i.Effect a h top h') : top.pc = a.pc ∨ i.jumpTarget? = some top.pc := by
  cases heffect with
  | store => exact .inl (Activation.pc_store _ _ _)
  | jump _ htarget => exact .inr htarget
  | @branch target b _ _ htarget _ =>
    cases b with
    | false => exact .inr htarget
    | true => exact .inl rfl
  | _ => exact .inl rfl

/-- How an instruction passes control on: it has its effect and goes on, it asks for a call with
nothing changed, or it returns the operand on top. -/
def Instruction.Passes (i : Instruction) (l : Local) : Flow → Local → Prop
  | .next, l' => i.Effect l.top l.heap l'.top l'.heap
  | .call name, l' => i.opcode = .call ∧ Operand.name? i.operand = some name ∧ l' = l
  | .ret v, l' => i.opcode = .ret ∧ l'.heap = l.heap ∧ ∃ rest, l.top.stack = v :: rest

/-- What an instruction of the activation `a` can fail for. -/
inductive Instruction.Blames (i : Instruction) (a : Activation) (h : Heap) : Cause → Prop where
  | operand {kind : OperandKind}
      (hoperand : i.operand.map Operand.kind ≠ i.opcode.operandKind) :
      Blames i a h (.missingOperand i.opcode kind)
  | stack : Blames i a h .emptyStack
  | slot {slot : Nat} (hslot : a.slots.length ≤ slot) : Blames i a h (.noSlot slot a.slots.length)
  | values {cause : Cause} (hkind : cause.kind.isAboutOperands = true) : Blames i a h cause
  | object {id : ObjectId} {cause : Cause} (hid : .object id ∈ a.stack)
      (hobject : h.object id = .error cause) : Blames i a h cause
  | field {id : ObjectId} {field : String} : Blames i a h (.unknownField id field)
  | exhausted : Blames i a h .heapExhausted
  | console {cause : Cause} (hkind : cause.kind = .io) : Blames i a h cause

/-- All that is different from before is that operands have been taken; the console may differ. -/
structure Local.Spends (l l' : Local) : Prop where
  heap : l'.heap = l.heap
  top : l'.top = { l.top with stack := l'.top.stack }
  stack : l'.top.stack <:+ l.top.stack

/-- How an instruction fails: it has taken operands at most, and there is something to blame. -/
def Instruction.Fails (i : Instruction) (l : Local) (cause : Cause) (l' : Local) : Prop :=
  l.Spends l' ∧ i.Blames l.top l.heap cause

theorem Local.Spends.refl (l : Local) : l.Spends l := ⟨rfl, rfl, List.suffix_rfl⟩

/-- Operands may be taken in several steps. -/
theorem Local.Spends.trans {l mid l' : Local} (h : l.Spends mid) (h' : mid.Spends l') :
    l.Spends l' := by
  refine ⟨h'.heap.trans h.heap, ?_, h'.stack.trans h.stack⟩
  rw [h'.top, h.top]

/-! ## Rules for actions -/

/-- From `l` the action ends with a result for which `post` holds, or with a fault for which `fault`
holds. -/
def Action.Ends {α : Type} (x : Action α) (l : Local) (post : α → Local → Prop)
    (fault : Cause → Local → Prop) : Prop :=
  match x l with
  | .ok a l' => post a l'
  | .error cause l' => fault cause l'

namespace Operand

theorem isSome_value? {o : Option Operand} (h : o.map Operand.kind = some .value) :
    (value? o).isSome := by
  rcases o with _ | (_ | _ | _ | _ | _) <;> cases h
  rfl

theorem isSome_slot? {o : Option Operand} (h : o.map Operand.kind = some .slot) :
    (slot? o).isSome := by
  rcases o with _ | (_ | _ | _ | _ | _) <;> cases h
  rfl

theorem isSome_address? {o : Option Operand} (h : o.map Operand.kind = some .address) :
    (address? o).isSome := by
  rcases o with _ | (_ | _ | _ | _ | _) <;> cases h
  rfl

theorem isSome_name? {o : Option Operand} (h : o.map Operand.kind = some .name) :
    (name? o).isSome := by
  rcases o with _ | (_ | _ | _ | _ | _) <;> cases h
  rfl

theorem isSome_fields? {o : Option Operand} (h : o.map Operand.kind = some .fields) :
    (fields? o).isSome := by
  rcases o with _ | (_ | _ | _ | _ | _) <;> cases h
  rfl

theorem eq_of_address? {o : Option Operand} {target : Nat} (h : address? o = some target) :
    o = some (.address target) := by
  rcases o with _ | (_ | _ | _ | _ | _) <;> cases h
  rfl

theorem eq_of_name? {o : Option Operand} {name : String} (h : name? o = some name) :
    o = some (.name name) := by
  rcases o with _ | (_ | _ | _ | _ | _) <;> cases h
  rfl

theorem eq_of_fields? {o : Option Operand} {names : List String} (h : fields? o = some names) :
    o = some (.fields names) := by
  rcases o with _ | (_ | _ | _ | _ | _) <;> cases h
  rfl

theorem eq_of_value? {o : Option Operand} {v : Value} (h : value? o = some v) :
    o = some (.value v) := by
  rcases o with _ | (_ | _ | _ | _ | _) <;> cases h
  rfl

end Operand

namespace Action

section Rules

variable {α β : Type} {l : Local} {fault : Cause → Local → Prop}

/-- An action and one that depends on its result: the second starts where the first has ended. -/
theorem Ends.bind {x : Action α} {f : α → Action β} {post : β → Local → Prop}
    (h : x.Ends l (fun a l' => (f a).Ends l' post fault) fault) : (x >>= f).Ends l post fault := by
  unfold Ends at h ⊢
  simp only [Bind.bind, EStateM.bind]
  cases hx : x l with
  | ok a l' =>
    rw [hx] at h
    exact h
  | error cause l' =>
    rw [hx] at h
    exact h

theorem ends_lift {x : Except Cause α} {post : α → Local → Prop} (hok : ∀ a, x = .ok a → post a l)
    (herror : ∀ cause, x = .error cause → fault cause l) : (lift x).Ends l post fault := by
  cases x with
  | ok a => exact hok a rfl
  | error cause => exact herror cause rfl

theorem ends_pop {post : Value → Local → Prop} (hempty : fault .emptyStack l)
    (htaken : ∀ v rest, l.top.stack = v :: rest →
      post v { l with top := { l.top with stack := rest } }) : pop.Ends l post fault := by
  unfold Ends pop Activation.pop
  cases hstack : l.top.stack with
  | nil => exact hempty
  | cons v rest => exact htaken v rest hstack

theorem ends_peek {post : Value → Local → Prop} (hempty : fault .emptyStack l)
    (hseen : ∀ v rest, l.top.stack = v :: rest → post v l) : peek.Ends l post fault := by
  unfold Ends peek Activation.peek
  cases hstack : l.top.stack with
  | nil => exact hempty
  | cons v rest => exact hseen v rest hstack

theorem ends_load {slot : Nat} {post : Value → Local → Prop}
    (hnone : l.top.slots.length ≤ slot → fault (.noSlot slot l.top.slots.length) l)
    (hsome : ∀ v, l.top.slots[slot]? = some v → post v l) : (load slot).Ends l post fault := by
  unfold Ends load Activation.load
  cases hslot : l.top.slots[slot]? with
  | none => exact hnone (List.getElem?_eq_none_iff.1 hslot)
  | some v => exact hsome v hslot

theorem ends_print {text : String} {post : Unit → Local → Prop}
    (hok : ∀ console, post () { l with console })
    (herror : ∀ cause console, cause.kind = .io → fault cause { l with console }) :
    (print text).Ends l post fault := by
  unfold Ends print
  rcases hprint : l.console.print text with ⟨cause | _, console⟩
  · exact herror cause console (Console.kind_of_print_error hprint)
  · exact hok console

theorem ends_readLine {post : String → Local → Prop}
    (hok : ∀ line console, post line { l with console })
    (herror : ∀ cause console, cause.kind = .io → fault cause { l with console }) :
    readLine.Ends l post fault := by
  unfold Ends readLine
  rcases hread : l.console.readLine with ⟨cause | line, console⟩
  · exact herror cause console (Console.kind_of_readLine_error hread)
  · exact hok line console

theorem ends_alloc {names : List String} {post : ObjectId → Local → Prop}
    (hok : ∀ id heap, l.heap.alloc names = .ok (id, heap) → post id { l with heap })
    (herror : fault .heapExhausted l) : (alloc names).Ends l post fault := by
  unfold Ends alloc
  cases halloc : l.heap.alloc names with
  | ok result => exact hok result.1 result.2 halloc
  | error cause =>
    unfold Heap.alloc at halloc
    dsimp only at halloc
    split at halloc
    · cases halloc
    · cases halloc
      exact herror

theorem ends_free {id : ObjectId} {post : Unit → Local → Prop}
    (hok : ∀ heap, l.heap.free id = .ok heap → post () { l with heap })
    (herror : ∀ cause, l.heap.object id = .error cause → fault cause l) :
    (free id).Ends l post fault := by
  unfold Ends free
  cases hfree : l.heap.free id with
  | ok heap => exact hok heap hfree
  | error cause =>
    unfold Heap.free at hfree
    split at hfree
    · cases hfree
    · next hobject =>
      cases hfree
      exact herror cause hobject

/-- Reading a field fails where there is no such object, or the object has no such field. -/
theorem ends_getField {id : ObjectId} {field : String} {post : Value → Local → Prop}
    (hok : ∀ v, l.heap.getField id field = .ok v → post v l)
    (hobject : ∀ cause, l.heap.object id = .error cause → fault cause l)
    (hfield : fault (.unknownField id field) l) : (getField id field).Ends l post fault := by
  refine ends_lift hok ?_
  intro cause hget
  unfold Heap.getField at hget
  split at hget
  · split at hget
    · cases hget
    · cases hget
      exact hfield
  · next hmissing =>
    cases hget
    exact hobject cause hmissing

/-- Setting a field fails where there is no such object, or the object has no such field. -/
theorem ends_setField {id : ObjectId} {field : String} {v : Value} {post : Unit → Local → Prop}
    (hok : ∀ heap, l.heap.setField id field v = .ok heap → post () { l with heap })
    (hobject : ∀ cause, l.heap.object id = .error cause → fault cause l)
    (hfield : fault (.unknownField id field) l) : (setField id field v).Ends l post fault := by
  unfold Ends setField
  cases hset : l.heap.setField id field v with
  | ok heap => exact hok heap hset
  | error cause =>
    unfold Heap.setField at hset
    split at hset
    · split at hset
      · cases hset
      · cases hset
        exact hfield
    · next hmissing =>
      cases hset
      exact hobject cause hmissing

end Rules

/-! ## Instructions -/

section Instructions

variable {i : Instruction} {l l' : Local}

theorem spends_pop {v : Value} {rest : List Value} (hstack : l.top.stack = v :: rest) :
    l.Spends { l with top := { l.top with stack := rest } } := by
  refine ⟨rfl, rfl, ?_⟩
  rw [hstack]
  exact List.suffix_cons v rest

/-- An instruction whose operand is not of the kind that it needs. -/
theorem ends_need {α : Type} {kind : OperandKind} {found : Option α} {post : α → Local → Prop}
    (hkind : i.opcode.operandKind = some kind)
    (hfound : i.operand.map Operand.kind = some kind → found.isSome)
    (h : ∀ a, found = some a → post a l) : (need i kind found).Ends l post (i.Fails l) := by
  unfold need
  cases hcase : found with
  | some a => exact h a hcase
  | none =>
    refine ⟨.refl l, .operand ?_⟩
    rw [hkind]
    intro hsame
    have hsome := hfound hsame
    rw [hcase] at hsome
    cases hsome

theorem Ends.next {α : Type} {x : Action α} {fault : Cause → Local → Prop}
    (h : x.Ends l' (fun _ l'' => i.Effect l.top l.heap l''.top l''.heap) fault) :
    (x >>= fun _ => pure .next).Ends l' (i.Passes l) fault :=
  .bind h

theorem ends_unary {f : Value → Except Cause Value} (hop : i.opcode.computes = true)
    (hf : ∀ v, isComputed (f v) = true) :
    (unary f).Ends l (fun _ l' => i.Effect l.top l.heap l'.top l'.heap) (i.Fails l) := by
  refine .bind (ends_pop ⟨.refl l, .stack⟩ ?_)
  intro v rest hstack
  have htaken : l.top.stack = [v] ++ rest := hstack
  have hcomputed := hf v
  refine .bind (ends_lift ?_ ?_)
  · intro result hresult
    rw [hresult] at hcomputed
    exact .compute hop htaken (bne_iff_ne.1 hcomputed)
  · intro cause hresult
    rw [hresult] at hcomputed
    exact ⟨spends_pop hstack, .values hcomputed⟩

/-- A computation on two operands, of which the right one lies on top. -/
theorem ends_binary {f : Value → Value → Except Cause Value} (hop : i.opcode.computes = true)
    (hf : ∀ u v, isComputed (f u v) = true) :
    (binary f).Ends l (fun _ l' => i.Effect l.top l.heap l'.top l'.heap) (i.Fails l) := by
  refine .bind (ends_pop ⟨.refl l, .stack⟩ ?_)
  intro v others hstack
  refine .bind (ends_pop ⟨spends_pop hstack, .stack⟩ ?_)
  intro u rest hothers
  have htaken : l.top.stack = [v, u] ++ rest := hstack.trans (congrArg (v :: ·) hothers)
  have hcomputed := hf u v
  refine .bind (ends_lift ?_ ?_)
  · intro result hresult
    rw [hresult] at hcomputed
    exact .compute hop htaken (bne_iff_ne.1 hcomputed)
  · intro cause hresult
    rw [hresult] at hcomputed
    exact ⟨(spends_pop hstack).trans (spends_pop hothers), .values hcomputed⟩

/-- The address that a jump carries is its target. -/
theorem jumpTarget?_of_jump {target : Nat} (hop : i.opcode = .jump)
    (htarget : Operand.address? i.operand = some target) : i.jumpTarget? = some target := by
  unfold Instruction.jumpTarget?
  rw [hop, Operand.eq_of_address? htarget]

/-- The address that a conditional jump carries is its target. -/
theorem jumpTarget?_of_jumpIfFalse {target : Nat} (hop : i.opcode = .jumpIfFalse)
    (htarget : Operand.address? i.operand = some target) : i.jumpTarget? = some target := by
  unfold Instruction.jumpTarget?
  rw [hop, Operand.eq_of_address? htarget]

/-- An instruction has one of its effects, asks for a call, returns, or fails for what it blames. -/
theorem perform_ends (i : Instruction) (l : Local) :
    (perform i).Ends l (i.Passes l) (i.Fails l) := by
  have hunderflow : i.Fails l .emptyStack l := ⟨.refl l, .stack⟩
  unfold perform
  -- One case for each opcode, in the order of its actions.
  cases hop : i.opcode with
  | push =>
    refine .bind (ends_need (hop ▸ rfl) Operand.isSome_value? ?_)
    intro v hv
    exact .push hop hv
  | pop =>
    refine .next (ends_pop hunderflow ?_)
    intro v rest hstack
    exact .pop hop hstack
  | load =>
    refine .bind (ends_need (hop ▸ rfl) Operand.isSome_slot? ?_)
    intro slot hslot
    refine .bind (ends_load (fun hnone => ⟨.refl l, .slot hnone⟩) ?_)
    intro v hv
    exact .load hop hslot hv
  | store =>
    refine .bind (ends_need (hop ▸ rfl) Operand.isSome_slot? ?_)
    intro slot hslot
    refine .bind (ends_pop hunderflow ?_)
    intro v rest hstack
    exact .store hop hslot hstack
  | add | sub | mul | div | mod =>
    exact .next (ends_binary (hop ▸ rfl) (Value.isComputed_arithmetic _))
  | neg => exact .next (ends_unary (hop ▸ rfl) Value.isComputed_negate)
  | and | or => exact .next (ends_binary (hop ▸ rfl) (Value.isComputed_logic _))
  | not => exact .next (ends_unary (hop ▸ rfl) Value.isComputed_complement)
  | cmpLt | cmpLe | cmpGt | cmpGe | cmpEq | cmpNe =>
    exact .next (ends_binary (hop ▸ rfl) (Value.isComputed_comparison _))
  | jump =>
    refine .bind (ends_need (hop ▸ rfl) Operand.isSome_address? ?_)
    intro target htarget
    exact .jump hop (jumpTarget?_of_jump hop htarget)
  | jumpIfFalse =>
    refine .bind (ends_need (hop ▸ rfl) Operand.isSome_address? ?_)
    intro target htarget
    refine .bind (ends_pop hunderflow ?_)
    intro v rest hstack
    have hjump := jumpTarget?_of_jumpIfFalse hop htarget
    -- A condition is a truth value; anything else is of the wrong type.
    rcases v with _ | _ | (_ | _) | _ | _ | _ | _
    case bool.false => exact .branch hop hjump hstack
    case bool.true => exact .branch hop hjump hstack
    all_goals exact ⟨spends_pop hstack, .values rfl⟩
  | call =>
    refine .bind (ends_need (hop ▸ rfl) Operand.isSome_name? ?_)
    intro name hname
    exact ⟨hop, hname, rfl⟩
  | ret =>
    refine .bind (ends_pop hunderflow ?_)
    intro v rest hstack
    exact ⟨hop, rfl, rest, hstack⟩
  | write =>
    refine .bind (ends_pop hunderflow ?_)
    intro v rest hstack
    refine .next (ends_print (fun _ => .write hop hstack) ?_)
    intro cause console hkind
    exact ⟨⟨rfl, rfl, (spends_pop hstack).stack⟩, .console hkind⟩
  | read =>
    refine .bind (ends_readLine ?_ ?_)
    · intro line console
      have htaken : l.top.stack = [] ++ l.top.stack := rfl
      exact .compute (hop ▸ rfl) htaken nofun
    · intro cause console hkind
      exact ⟨⟨rfl, rfl, List.suffix_rfl⟩, .console hkind⟩
  | len => exact .next (ends_unary (hop ▸ rfl) Value.isComputed_length)
  | getChar => exact .next (ends_binary (hop ▸ rfl) Value.isComputed_charAt)
  | toInt => exact .next (ends_unary (hop ▸ rfl) Value.isComputed_toInt)
  | toDouble => exact .next (ends_unary (hop ▸ rfl) Value.isComputed_toDouble)
  | toText => exact .next (ends_unary (hop ▸ rfl) Value.isComputed_toText)
  | alloc =>
    refine .bind (ends_need (hop ▸ rfl) Operand.isSome_fields? ?_)
    intro names hnames
    refine .bind (ends_alloc ?_ ⟨.refl l, .exhausted⟩)
    intro id heap halloc
    exact .alloc hop hnames halloc
  | free =>
    refine .bind (ends_pop hunderflow ?_)
    intro target rest hstack
    have hspent := spends_pop hstack
    refine .bind (ends_lift ?_ fun cause h => ⟨hspent, .values (Value.isAboutOperands_of_target h)⟩)
    intro id hid
    rw [Value.eq_object_of_target hid] at hstack
    -- The object was among the operands, so that a fault can blame it.
    have hmem : Value.object id ∈ l.top.stack := hstack ▸ List.mem_cons_self
    exact .next (ends_free (fun heap hfree => .free hop hstack hfree)
      fun cause hobject => ⟨hspent, .object hmem hobject⟩)
  | setField =>
    refine .bind (ends_need (hop ▸ rfl) Operand.isSome_name? ?_)
    intro field hfield
    refine .bind (ends_pop hunderflow ?_)
    intro v others hstack
    refine .bind (ends_pop ⟨spends_pop hstack, .stack⟩ ?_)
    intro target rest hothers
    have hspent := (spends_pop hstack).trans (spends_pop hothers)
    refine .bind (ends_lift ?_ fun cause h => ⟨hspent, .values (Value.isAboutOperands_of_target h)⟩)
    intro id hid
    have htaken : l.top.stack = v :: .object id :: rest := by
      rw [← Value.eq_object_of_target hid]
      exact hstack.trans (congrArg (v :: ·) hothers)
    have hmem : Value.object id ∈ l.top.stack :=
      htaken ▸ List.mem_cons_of_mem v List.mem_cons_self
    exact .next (ends_setField (fun heap hset => .setField hop hfield htaken hset)
      (fun cause hobject => ⟨hspent, .object hmem hobject⟩) ⟨hspent, .field⟩)
  | getField =>
    refine .bind (ends_need (hop ▸ rfl) Operand.isSome_name? ?_)
    intro field hfield
    refine .bind (ends_pop hunderflow ?_)
    intro target rest hstack
    have hspent := spends_pop hstack
    refine .bind (ends_lift ?_ fun cause h => ⟨hspent, .values (Value.isAboutOperands_of_target h)⟩)
    intro id hid
    rw [Value.eq_object_of_target hid] at hstack
    have hmem : Value.object id ∈ l.top.stack := hstack ▸ List.mem_cons_self
    refine .bind (ends_getField ?_ (fun cause hobject => ⟨hspent, .object hmem hobject⟩)
      ⟨hspent, .field⟩)
    intro v hget
    exact .getField hop hfield hstack hget
  | dup =>
    refine .bind (ends_peek hunderflow ?_)
    intro v rest hstack
    exact .dup hop hstack
  | swap =>
    refine .bind (ends_pop hunderflow ?_)
    intro v others hstack
    refine .bind (ends_pop ⟨spends_pop hstack, .stack⟩ ?_)
    intro u rest hothers
    exact .swap hop (hstack.trans (congrArg (v :: ·) hothers))
  | nop => exact .nop hop

end Instructions

end Action

end RecordMachine
