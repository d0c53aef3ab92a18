import RecordMachine.Proofs.Correspondence.Basic

/-!
# Corresponding instructions

The rules for pairs of actions, and with them that an instruction does corresponding things to
corresponding activations, heaps and consoles (`Correspondence.perform_pairs`). Each rule speaks of
one action on both sides; `Correspondence.Pairs.bind` puts them together, and it is the only place
where it matters that ids may run out on one side alone.
-/

namespace RecordMachine

/-! ## Lists and records -/

section Lists

variable {α β : Type} {R : α → β → Prop} {l : List α} {l' : List β}

/-- Lists that correspond element by element have corresponding elements at every index, and end at
the same one. Induction on the lists. -/
theorem forall₂_getElem? (h : List.Forall₂ R l l') (k : Nat) : Option.Rel R l[k]? l'[k]? := by
  induction h generalizing k with
  | nil => exact .none
  | cons hab _ ih =>
    cases k with
    | zero => exact .some hab
    | succ k => exact ih k

/-- Overwriting the same index with corresponding elements keeps lists in correspondence. -/
theorem forall₂_set (h : List.Forall₂ R l l') {a : α} {b : β} (hab : R a b) (k : Nat) :
    List.Forall₂ R (l.set k a) (l'.set k b) := by
  induction h generalizing k with
  | nil => exact .nil
  | cons hxy hrest ih =>
    cases k with
    | zero => exact .cons hab hrest
    | succ k => exact .cons hxy (ih k)

/-- The padding of `Activation.store` corresponds to itself. -/
theorem forall₂_replicate {a : α} {b : β} (hab : R a b) (k : Nat) :
    List.Forall₂ R (List.replicate k a) (List.replicate k b) := by
  induction k with
  | zero => exact .nil
  | succ k ih => exact .cons hab ih

end Lists

namespace Record

variable {R : Value → Value → Prop} {r r' : Record}

/-- A field of corresponding records has corresponding values, or is in neither of them. -/
theorem Related.get? (h : r.Related R r') (field : String) :
    Option.Rel R (r.get? field) (r'.get? field) := by
  obtain ⟨fields⟩ := r
  obtain ⟨fields'⟩ := r'
  unfold Record.get?
  change List.Forall₂ _ fields fields' at h
  induction h with
  | nil => exact .none
  | @cons f f' _ _ hf _ ih =>
    obtain ⟨hname, hvalue⟩ := hf
    by_cases hfield : f.1 = field
    · have hfield' : f'.1 = field := hname.trans hfield
      simpa [hfield, hfield'] using Option.Rel.some hvalue
    · have hfield' : ¬ f'.1 = field := fun h => hfield (hname.symm.trans h)
      simpa [hfield, hfield'] using ih

/-- Setting a field to corresponding values succeeds on both records or on neither of them, and the
changed records correspond again. -/
theorem Related.set? (h : r.Related R r') (field : String) {v v' : Value} (hv : R v v') :
    Option.Rel (Related R) (r.set? field v) (r'.set? field v') := by
  obtain ⟨fields⟩ := r
  obtain ⟨fields'⟩ := r'
  change List.Forall₂ _ fields fields' at h
  -- Induction on the fields: the names agree, so both sides stop at the same field.
  have hfields : Option.Rel (List.Forall₂ fun f f' => f'.1 = f.1 ∧ R f.2 f'.2)
      (setIn? field v fields) (setIn? field v' fields') := by
    induction h with
    | nil => exact .none
    | @cons f f' _ _ hf hrest ih =>
      obtain ⟨hname, hvalue⟩ := hf
      rw [setIn?, setIn?]
      by_cases hfield : f.1 = field
      · rw [if_pos hfield, if_pos (hname.trans hfield)]
        exact .some (.cons ⟨hname, hv⟩ hrest)
      · rw [if_neg hfield, if_neg fun h => hfield (hname.symm.trans h)]
        generalize setIn? field v _ = set at ih ⊢
        generalize setIn? field v' _ = set' at ih ⊢
        cases ih with
        | none => exact .none
        | some hset => exact .some (.cons ⟨hname, hvalue⟩ hset)
  unfold Record.set?
  generalize setIn? field v fields = set at hfields ⊢
  generalize setIn? field v' fields' = set' at hfields ⊢
  cases hfields with
  | none => exact .none
  | some hset => exact .some hset

end Record

namespace Correspondence

variable {C : Correspondence}

/-! ## Activations -/

namespace Activations

variable {a a' : Activation} {v v' : Value}

/-- Only the operands change; place, slots and code are as before. -/
theorem withStack (h : C.Activations a a') {stack stack' : List Value}
    (hstack : List.Forall₂ C.value stack stack') :
    C.Activations { a with stack } { a' with stack := stack' } :=
  ⟨h.blueprint, h.pc, h.slots, hstack, h.code⟩

theorem push (h : C.Activations a a') (hv : C.value v v') :
    C.Activations (a.push v) (a'.push v') :=
  h.withStack (.cons hv h.stack)

theorem goTo (h : C.Activations a a') (target : Nat) :
    C.Activations { a with pc := target } { a' with pc := target } :=
  ⟨h.blueprint, rfl, h.slots, h.stack, h.code⟩

/-- Both sides take a value off, and the values correspond; or neither side has one. -/
theorem pop (h : C.Activations a a') :
    Outcomes (Cause.Related C.value) (fun x x' => C.value x.1 x'.1 ∧ C.Activations x.2 x'.2)
      a.pop a'.pop := by
  have hstack := h.stack
  unfold Activation.pop
  cases hleft : a.stack with
  | nil =>
    rw [hleft] at hstack
    rw [List.forall₂_nil_left_iff.1 hstack]
    exact .error (.same rfl)
  | cons v rest =>
    rw [hleft] at hstack
    obtain ⟨v', rest', hv, hrest, hright⟩ := List.forall₂_cons_left_iff.1 hstack
    rw [hright]
    exact .ok ⟨hv, h.withStack hrest⟩

/-- Both sides look at corresponding values, or neither side has one. -/
theorem peek (h : C.Activations a a') :
    Outcomes (Cause.Related C.value) C.value a.peek a'.peek := by
  have hstack := h.stack
  unfold Activation.peek
  cases hleft : a.stack with
  | nil =>
    rw [hleft] at hstack
    rw [List.forall₂_nil_left_iff.1 hstack]
    exact .error (.same rfl)
  | cons v rest =>
    rw [hleft] at hstack
    obtain ⟨v', rest', hv, _, hright⟩ := List.forall₂_cons_left_iff.1 hstack
    rw [hright]
    exact .ok hv

/-- As many values are taken on both sides, and handed over in the same order; or too few are there
on both. -/
theorem popMany (h : C.Activations a a') (count : Nat) :
    Outcomes (Cause.Related C.value)
      (fun x x' => List.Forall₂ C.value x.1 x'.1 ∧ C.Activations x.2 x'.2)
      (a.popMany count) (a'.popMany count) := by
  have hlength := h.stack.length_eq
  unfold Activation.popMany
  by_cases henough : count ≤ a.stack.length
  · rw [if_pos henough, if_pos (hlength ▸ henough)]
    have htaken := List.forall₂_take count h.stack
    exact .ok ⟨List.forall₂_reverse_iff.2 htaken, h.withStack (List.forall₂_drop count h.stack)⟩
  · rw [if_neg henough, if_neg (hlength ▸ henough)]
    exact .error (.same rfl)

/-- A slot holds corresponding values, or both sides have too few slots. As there are equally many,
the fault says the same. -/
theorem load (h : C.Activations a a') (slot : Nat) :
    Outcomes (Cause.Related C.value) C.value (a.load slot) (a'.load slot) := by
  have hslot := forall₂_getElem? h.slots slot
  have hlength := h.slots.length_eq
  unfold Activation.load
  rw [← hlength]
  generalize a.slots[slot]? = found at hslot ⊢
  generalize a'.slots[slot]? = found' at hslot ⊢
  cases hslot with
  | none => exact .error (.same rfl)
  | some hv => exact .ok hv

/-- Slots that are added in between hold `nil` on both sides, which corresponds to itself. -/
theorem store (h : C.Activations a a') (slot : Nat) (hv : C.value v v') :
    C.Activations (a.store slot v) (a'.store slot v') := by
  have hlength := h.slots.length_eq
  have hnil : C.value .nil .nil := C.plain .nil (by decide)
  unfold Activation.store
  rw [← hlength]
  by_cases hslot : slot < a.slots.length
  · rw [if_pos hslot, if_pos hslot]
    exact ⟨h.blueprint, h.pc, forall₂_set h.slots hv slot, h.stack, h.code⟩
  · rw [if_neg hslot, if_neg hslot]
    have hpadded := List.rel_append h.slots (forall₂_replicate hnil (slot - a.slots.length))
    exact ⟨h.blueprint, h.pc, List.rel_append hpadded (.cons hv .nil), h.stack, h.code⟩

end Activations

/-! ## The heap -/

section Heap

variable {h h' : Heap} {i j : ObjectId}

/-- Corresponding objects are freed on both sides, or the access fails for corresponding causes. -/
theorem heap_free (hh : C.heap h h') (hid : C.value (.object i) (.object j)) :
    Outcomes (Cause.Related C.value) C.heap (h.free i) (h'.free j) := by
  have hobject := C.object h h' i j hh hid
  unfold Heap.free
  generalize h.object i = found at hobject ⊢
  generalize h'.object j = found' at hobject ⊢
  cases hobject with
  | ok hr => exact .ok (C.put h h' i j none none hh hid .none)
  | error hc => exact .error hc

/-- A field of corresponding objects is read on both sides, or is missing in both. -/
theorem heap_getField (hh : C.heap h h') (hid : C.value (.object i) (.object j)) (field : String) :
    Outcomes (Cause.Related C.value) C.value (h.getField i field) (h'.getField j field) := by
  have hobject := C.object h h' i j hh hid
  unfold Heap.getField
  generalize h.object i = found at hobject ⊢
  generalize h'.object j = found' at hobject ⊢
  cases hobject with
  | @ok r r' hr =>
    have hget := hr.get? field
    dsimp only
    generalize r.get? field = value at hget ⊢
    generalize r'.get? field = value' at hget ⊢
    cases hget with
    | none => exact .error (.unknownField hid field)
    | some hv => exact .ok hv
  | error hc => exact .error hc

/-- A field of corresponding objects is set on both sides, or is missing in both. -/
theorem heap_setField (hh : C.heap h h') (hid : C.value (.object i) (.object j)) (field : String)
    {v v' : Value} (hv : C.value v v') :
    Outcomes (Cause.Related C.value) C.heap (h.setField i field v) (h'.setField j field v') := by
  have hobject := C.object h h' i j hh hid
  unfold Heap.setField
  generalize h.object i = found at hobject ⊢
  generalize h'.object j = found' at hobject ⊢
  cases hobject with
  | @ok r r' hr =>
    have hset := hr.set? field hv
    dsimp only
    generalize r.set? field v = changed at hset ⊢
    generalize r'.set? field v' = changed' at hset ⊢
    cases hset with
    | none => exact .error (.unknownField hid field)
    | some hnew => exact .ok (C.put h h' i j _ _ hh hid (.some hnew))
  | error hc => exact .error hc

/-- What an instruction takes for an object is one on both sides, or is refused on both sides for
the same cause. -/
theorem target_outcomes {v v' : Value} (hv : C.value v v') (op : Opcode) :
    Outcomes (Cause.Related C.value) (fun i j => C.value (.object i) (.object j))
      (v.target op) (v'.target op) := by
  by_cases hobject : v.tag = .object
  · have hobject' : v'.tag = .object := (C.twin v v' hv).tag_eq.trans hobject
    obtain ⟨i, rfl⟩ := Value.exists_of_tag hobject
    obtain ⟨j, rfl⟩ := Value.exists_of_tag hobject'
    exact .ok hv
  · -- Anything else is refused, and it is the same on both sides.
    rw [(C.twin v v' hv).eq_of_ne hobject]
    cases v with
    | object id => exact absurd rfl hobject
    | _ => exact .error (.same rfl)

end Heap

/-! ## Rules for pairs of actions -/

section Rules

variable {α β : Type} {S : α → α → Prop} {T : β → β → Prop}

/-- Actions that follow each other. If the first one parts the two sides, the second one is not
performed on the side where ids have run out, and the sides remain parted. -/
theorem Pairs.bind {x x' : Action α} {f f' : α → Action β} (hx : C.Pairs S x x')
    (hf : ∀ a a', S a a' → C.Pairs T (f a) (f' a')) : C.Pairs T (x >>= f) (x' >>= f') := by
  intro l l' hl
  have hresults := hx l l' hl
  simp only [Bind.bind, EStateM.bind]
  generalize x l = r at hresults
  generalize x' l' = r' at hresults
  cases hresults with
  | ok ha hl => exact hf _ _ ha _ _ hl
  | error hc hl => exact .error hc hl
  | parted huneven hexhausted =>
    -- Where the first action has no id left, the second one is not performed.
    refine .parted huneven ?_
    rcases hexhausted with ⟨l, rfl⟩ | ⟨l, rfl⟩
    · exact .inl ⟨l, rfl⟩
    · exact .inr ⟨l, rfl⟩

theorem pairs_pure {a a' : α} (ha : S a a') : C.Pairs S (pure a) (pure a') :=
  fun _ _ hl => .ok ha hl

/-- A result that was computed beforehand changes nothing that an action can reach. -/
theorem pairs_lift {x x' : Except Cause α} (hx : Outcomes (Cause.Related C.value) S x x') :
    C.Pairs S (Action.lift x) (Action.lift x') := by
  intro l l' hl
  cases hx with
  | ok ha => exact .ok ha hl
  | error hc => exact .error hc hl

/-- The operand of an instruction is the same on both sides. -/
theorem pairs_need {i : Instruction} {kind : OperandKind} {found : Option α}
    (hfound : ∀ a, found = some a → S a a) :
    C.Pairs S (Action.need i kind found) (Action.need i kind found) := by
  intro l l' hl
  cases found with
  | none => exact .error (.same rfl) hl
  | some a => exact .ok (hfound a rfl) hl

theorem pairs_push {v v' : Value} (hv : C.value v v') :
    C.Pairs (fun _ _ => True) (Action.push v) (Action.push v') :=
  fun _ _ hl => .ok trivial ⟨hl.top.push hv, hl.heap, hl.console⟩

theorem pairs_pop : C.Pairs C.value Action.pop Action.pop := by
  intro l l' hl
  have hpop := hl.top.pop
  unfold Action.pop
  generalize l.top.pop = taken at hpop ⊢
  generalize l'.top.pop = taken' at hpop ⊢
  cases hpop with
  | ok htaken => exact .ok htaken.1 ⟨htaken.2, hl.heap, hl.console⟩
  | error hc => exact .error hc hl

theorem pairs_peek : C.Pairs C.value Action.peek Action.peek :=
  fun l l' hl => pairs_lift hl.top.peek l l' hl

theorem pairs_load (slot : Nat) : C.Pairs C.value (Action.load slot) (Action.load slot) :=
  fun l l' hl => pairs_lift (hl.top.load slot) l l' hl

/-- `Activations.store` as an action, which always succeeds. -/
theorem pairs_store (slot : Nat) {v v' : Value} (hv : C.value v v') :
    C.Pairs (fun _ _ => True) (Action.store slot v) (Action.store slot v') :=
  fun _ _ hl => .ok trivial ⟨hl.top.store slot hv, hl.heap, hl.console⟩

theorem pairs_goTo (target : Nat) :
    C.Pairs (fun _ _ => True) (Action.goTo target) (Action.goTo target) :=
  fun _ _ hl => .ok trivial ⟨hl.top.goTo target, hl.heap, hl.console⟩

/-- Twins decide a branch alike: the same boolean value goes the same way, and anything else is
refused by its tag. -/
theorem pairs_branch (target : Nat) {v v' : Value} (hv : C.value v v') :
    C.Pairs (fun _ _ => True) (Action.branch target v) (Action.branch target v') := by
  rcases C.twin v v' hv with rfl | ⟨hobject, hobject'⟩
  · rcases v' with _ | _ | (_ | _) | _ | _ | _ | _
    case bool.false => exact pairs_goTo target
    case bool.true => exact pairs_pure trivial
    all_goals exact fun _ _ hl => .error (.same rfl) hl
  · obtain ⟨i, rfl⟩ := Value.exists_of_tag hobject
    obtain ⟨j, rfl⟩ := Value.exists_of_tag hobject'
    exact fun _ _ hl => .error (.same rfl) hl

/-- The consoles give the same answer to corresponding texts, and remain in correspondence whatever
it is. -/
theorem pairs_print {v v' : Value} (hv : C.value v v') :
    C.Pairs (fun _ _ => True) (Action.print v.text) (Action.print v'.text) := by
  intro l l' hl
  obtain ⟨hsame, hconsole⟩ := C.print l.console l'.console v v' hl.console hv
  unfold Action.print
  rcases hleft : l.console.print v.text with ⟨result, c⟩
  rcases hright : l'.console.print v'.text with ⟨result', c'⟩
  rw [hleft, hright] at hsame hconsole
  obtain rfl : result' = result := hsame
  cases result' with
  | ok u => exact .ok trivial ⟨hl.top, hl.heap, hconsole⟩
  | error cause =>
    have hio := Cause.object?_of_io (Console.kind_of_print_error hleft)
    exact .error (.same hio) ⟨hl.top, hl.heap, hconsole⟩

/-- Both sides read the same line, or fail for the same cause. -/
theorem pairs_readLine : C.Pairs Eq Action.readLine Action.readLine := by
  intro l l' hl
  obtain ⟨hsame, hconsole⟩ := C.readLine l.console l'.console hl.console
  unfold Action.readLine
  rcases hleft : l.console.readLine with ⟨result, c⟩
  rcases hright : l'.console.readLine with ⟨result', c'⟩
  rw [hleft, hright] at hsame hconsole
  obtain rfl : result' = result := hsame
  cases result' with
  | ok line => exact .ok rfl ⟨hl.top, hl.heap, hconsole⟩
  | error cause =>
    have hio := Cause.object?_of_io (Console.kind_of_readLine_error hleft)
    exact .error (.same hio) ⟨hl.top, hl.heap, hconsole⟩

/-- The one action at which the two sides may part. -/
theorem pairs_alloc (names : List String) :
    C.Pairs (fun i j => C.value (.object i) (.object j)) (Action.alloc names)
      (Action.alloc names) := by
  intro l l' hl
  unfold Action.alloc
  rcases C.alloc l.heap l'.heap names hl.heap with
    ⟨i, j, g, g', hleft, hright, hid, hh⟩ | ⟨hleft, hright⟩ | ⟨huneven, hleft | hright⟩
  · -- The cases of `Correspondence.alloc`: both heaps give out an id, neither does, or only one
    -- does.
    rw [hleft, hright]
    exact .ok hid ⟨hl.top, hh, hl.console⟩
  · rw [hleft, hright]
    exact .error (.same rfl) hl
  · rw [hleft]
    exact .parted huneven (.inl ⟨l, rfl⟩)
  · rw [hright]
    exact .parted huneven (.inr ⟨l', rfl⟩)

section Objects

variable {i j : ObjectId} (hid : C.value (.object i) (.object j))

include hid

theorem pairs_free : C.Pairs (fun _ _ => True) (Action.free i) (Action.free j) := by
  intro l l' hl
  have hfree := heap_free hl.heap hid
  unfold Action.free
  generalize l.heap.free i = freed at hfree ⊢
  generalize l'.heap.free j = freed' at hfree ⊢
  cases hfree with
  | ok hh => exact .ok trivial ⟨hl.top, hh, hl.console⟩
  | error hc => exact .error hc hl

theorem pairs_getField (field : String) :
    C.Pairs C.value (Action.getField i field) (Action.getField j field) :=
  fun l l' hl => pairs_lift (heap_getField hl.heap hid field) l l' hl

theorem pairs_setField (field : String) {v v' : Value} (hv : C.value v v') :
    C.Pairs (fun _ _ => True) (Action.setField i field v) (Action.setField j field v') := by
  intro l l' hl
  have hset := heap_setField hl.heap hid field hv
  unfold Action.setField
  generalize l.heap.setField i field v = changed at hset ⊢
  generalize l'.heap.setField j field v' = changed' at hset ⊢
  cases hset with
  | ok hh => exact .ok trivial ⟨hl.top, hh, hl.console⟩
  | error hc => exact .error hc hl

end Objects

end Rules

/-! ## Instructions -/

/-- The same computation has corresponding outcomes: it makes no objects. -/
theorem outcomes_of_isComputed {x x' : Except Cause Value} (hx : isComputed x = true)
    (hsame : x' = x) : Outcomes (Cause.Related C.value) C.value x x' := by
  subst hsame
  cases x' with
  | ok v => exact .ok (C.plain v (bne_iff_ne.1 hx))
  | error cause => exact .error (.same (Cause.object?_of_isAboutOperands hx))

/-- An operation that treats all objects alike has the same outcome on both sides. -/
theorem pairs_unary {f : Value → Except Cause Value} (hf : ∀ v, isComputed (f v) = true)
    (hobject : ∀ i j, f (.object j) = f (.object i)) :
    C.Pairs (fun _ _ => True) (Action.unary f) (Action.unary f) := by
  refine .bind pairs_pop fun a a' ha => ?_
  have hsame : f a' = f a := (C.twin a a' ha).unary hobject
  exact .bind (pairs_lift (outcomes_of_isComputed (hf a) hsame)) fun _ _ hv => pairs_push hv

/-- An operation on two operands; the second operand is the one on top. -/
theorem pairs_binary {f : Value → Value → Except Cause Value}
    (hf : ∀ u v, isComputed (f u v) = true)
    (hsame : ∀ a a' b b', C.value a a' → C.value b b' → f a' b' = f a b) :
    C.Pairs (fun _ _ => True) (Action.binary f) (Action.binary f) := by
  refine .bind pairs_pop fun b b' hb => .bind pairs_pop fun a a' ha => ?_
  have hlift := outcomes_of_isComputed (C := C) (hf a b) (hsame a a' b b' ha hb)
  exact .bind (pairs_lift hlift) fun _ _ hv => pairs_push hv

/-- The last action of an instruction that goes on. -/
theorem Pairs.next {α : Type} {S : α → α → Prop} {x x' : Action α} (hx : C.Pairs S x x') :
    C.Pairs C.Flows (x >>= fun _ => pure .next) (x' >>= fun _ => pure .next) :=
  .bind hx fun _ _ _ => pairs_pure .next

/-- An instruction does corresponding things on both sides. Its operand is the same on both, and
what it pushes, if it pushes a literal, corresponds to itself. -/
theorem perform_pairs {i : Instruction} (hi : C.Admits i) :
    C.Pairs C.Flows (Action.perform i) (Action.perform i) := by
  have hsame {α : Type} {found : Option α} : ∀ a, found = some a → a = a := fun _ _ => rfl
  unfold Action.perform
  -- One case for each opcode, in the order of its actions.
  cases hop : i.opcode with
  | push => exact .bind (pairs_need (hi hop)) fun _ _ hv => .next (pairs_push hv)
  | pop => exact .next pairs_pop
  | load =>
    refine .bind (pairs_need hsame) ?_
    rintro slot _ rfl
    exact .bind (pairs_load slot) fun _ _ hv => .next (pairs_push hv)
  | store =>
    refine .bind (pairs_need hsame) ?_
    rintro slot _ rfl
    exact .bind pairs_pop fun _ _ hv => .next (pairs_store slot hv)
  | add | sub | mul | div | mod =>
    exact .next (pairs_binary (Value.isComputed_arithmetic _) fun a a' b b' ha hb =>
      (C.twin a a' ha).binary (Value.arithmetic_of_object _) (C.twin b b' hb))
  | neg => exact .next (pairs_unary Value.isComputed_negate fun _ _ => rfl)
  | and | or =>
    exact .next (pairs_binary (Value.isComputed_logic _) fun a a' b b' ha hb =>
      (C.twin a a' ha).binary (Value.logic_of_object _) (C.twin b b' hb))
  | not => exact .next (pairs_unary Value.isComputed_complement fun _ _ => rfl)
  | cmpLt | cmpLe | cmpGt | cmpGe | cmpEq | cmpNe =>
    exact .next (pairs_binary (Value.isComputed_comparison _) fun a a' b b' ha hb =>
      Value.comparison_twin _ (C.twin a a' ha) (C.twin b b' hb) (C.same a a' b b' ha hb))
  | jump =>
    refine .bind (pairs_need hsame) ?_
    rintro target _ rfl
    exact .next (pairs_goTo target)
  | jumpIfFalse =>
    refine .bind (pairs_need hsame) ?_
    rintro target _ rfl
    exact .bind pairs_pop fun _ _ hv => .next (pairs_branch target hv)
  | call =>
    refine .bind (pairs_need hsame) ?_
    rintro name _ rfl
    exact pairs_pure (.call name)
  | ret => exact .bind pairs_pop fun _ _ hv => pairs_pure (.ret hv)
  | write => exact .bind pairs_pop fun _ _ hv => .next (pairs_print hv)
  | read =>
    refine .bind pairs_readLine ?_
    rintro line _ rfl
    have hplain : (Value.string line).tag ≠ .object := by intro h; cases h
    exact .next (pairs_push (C.plain _ hplain))
  | len => exact .next (pairs_unary Value.isComputed_length fun _ _ => rfl)
  | getChar =>
    exact .next (pairs_binary Value.isComputed_charAt fun a a' b b' ha hb =>
      (C.twin a a' ha).binary Value.charAt_of_object (C.twin b b' hb))
  | toInt => exact .next (pairs_unary Value.isComputed_toInt fun _ _ => rfl)
  | toDouble => exact .next (pairs_unary Value.isComputed_toDouble fun _ _ => rfl)
  | toText => exact .next (pairs_unary Value.isComputed_toText fun _ _ => rfl)
  | alloc =>
    refine .bind (pairs_need hsame) ?_
    rintro names _ rfl
    exact .bind (pairs_alloc names) fun _ _ hid => .next (pairs_push hid)
  | free =>
    refine .bind pairs_pop fun target target' htarget => ?_
    exact .bind (pairs_lift (target_outcomes htarget .free)) fun _ _ hid => .next (pairs_free hid)
  | setField =>
    refine .bind (pairs_need hsame) ?_
    rintro field _ rfl
    refine .bind pairs_pop fun v v' hv => .bind pairs_pop fun target target' htarget => ?_
    exact .bind (pairs_lift (target_outcomes htarget .setField)) fun _ _ hid =>
      .next (pairs_setField hid field hv)
  | getField =>
    refine .bind (pairs_need hsame) ?_
    rintro field _ rfl
    refine .bind pairs_pop fun target target' htarget => ?_
    exact .bind (pairs_lift (target_outcomes htarget .getField)) fun _ _ hid =>
      .bind (pairs_getField hid field) fun _ _ hv => .next (pairs_push hv)
  | dup => exact .bind pairs_peek fun _ _ hv => .next (pairs_push hv)
  | swap =>
    exact .bind pairs_pop fun _ _ hb => .bind pairs_pop fun _ _ ha =>
      .bind (pairs_push hb) fun _ _ _ => .next (pairs_push ha)
  | nop => exact pairs_pure .next

end Correspondence

end RecordMachine
