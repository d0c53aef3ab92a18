import Mathlib.Data.List.Forall2
import RecordMachine.Proofs.Machine.Computations
import RecordMachine.Proofs.Machine.Runs

/-!
# Corresponding machines

Two machines can be compared although they do not hold the same values: it is enough to say which
values correspond to each other, which heaps and which consoles, and that everything an instruction
asks of them respects this. A `Correspondence` is such a relation. It may identify different
objects, and it leaves open what the output of a console has to do with that of the other one.

What an instruction computes from operands alone never depends on which object an operand is
(`Value.Twin`), with the one exception of equality. So a correspondence has to answer for equality,
for the heap and for the console, and the rest follows: performing an instruction on corresponding
activations has corresponding results (`Correspondence.perform_pairs`). The proof goes through an
instruction action by action, by rules for pairs of actions.

There is one way to part: ids run out. If the two heaps do not give out ids from the same place on,
one of them may have none left while the other still has; this is possible only if the
correspondence is `uneven`.
-/

namespace RecordMachine

/-! ## Values that differ at most in which object they are -/

namespace Value

/-- The values are the same, or both are objects. -/
def Twin (v w : Value) : Prop := w = v ∨ v.tag = .object ∧ w.tag = .object

/-- Twins have the same tag, as both may be objects but not only one. -/
theorem Twin.tag_eq {v w : Value} (h : v.Twin w) : w.tag = v.tag := by
  rcases h with rfl | ⟨hv, hw⟩
  · rfl
  · rw [hv, hw]

/-- Twins that are not objects are the same value. -/
theorem Twin.eq_of_ne {v w : Value} (h : v.Twin w) (hv : v.tag ≠ .object) : w = v :=
  h.resolve_right fun hboth => hv hboth.1

theorem exists_of_tag {v : Value} (h : v.tag = .object) : ∃ id, v = .object id := by
  cases v <;> cases h
  exact ⟨_, rfl⟩

/-- An operation that only looks at the tags once it meets an object does the same on twins. -/
theorem Twin.binary {f : Value → Value → Except Cause Value} {g : Tag → Tag → Cause}
    (hf : ∀ a b : Value, a.tag = .object ∨ b.tag = .object → f a b = .error (g a.tag b.tag))
    {a a' b b' : Value} (ha : a.Twin a') (hb : b.Twin b') : f a' b' = f a b := by
  by_cases hobject : a.tag = .object ∨ b.tag = .object
  · have hobject' : a'.tag = .object ∨ b'.tag = .object := by
      rw [ha.tag_eq, hb.tag_eq]
      exact hobject
    rw [hf a b hobject, hf a' b' hobject', ha.tag_eq, hb.tag_eq]
  · rw [ha.eq_of_ne fun h => hobject (.inl h), hb.eq_of_ne fun h => hobject (.inr h)]

/-- An operation on one operand that does not ask which object it has does the same on twins. -/
theorem Twin.unary {f : Value → Except Cause Value} (hf : ∀ i j, f (.object j) = f (.object i))
    {a a' : Value} (ha : a.Twin a') : f a' = f a := by
  rcases ha with rfl | ⟨hv, hw⟩
  · rfl
  · obtain ⟨i, rfl⟩ := exists_of_tag hv
    obtain ⟨j, rfl⟩ := exists_of_tag hw
    exact hf i j

/-- Arithmetic with an object fails, with a cause that names the tags only. -/
theorem arithmetic_of_object (op : Opcode) (a b : Value) (h : a.tag = .object ∨ b.tag = .object) :
    arithmetic op a b = .error (.operands op a.tag b.tag) := by
  unfold arithmetic
  split
  · rcases h with h | h <;> cases h
  · rcases h with h | h <;> cases h
  · split
    · next hs ht =>
      -- Only strings and characters can be joined.
      rcases h with h | h
      · obtain ⟨id, rfl⟩ := exists_of_tag h
        cases hs
      · obtain ⟨id, rfl⟩ := exists_of_tag h
        cases ht
    · rfl

/-- Logic with an object fails, with a cause that names the tags only. -/
theorem logic_of_object (op : Opcode) (a b : Value) (h : a.tag = .object ∨ b.tag = .object) :
    logic op a b = .error (.operands op a.tag b.tag) := by
  unfold logic
  split
  · rcases h with h | h <;> cases h
  · rcases h with h | h <;> cases h
  · rfl

/-- Taking a character fails if the index or the string is an object, with a cause that names the
tags. -/
theorem charAt_of_object (index string : Value) (h : index.tag = .object ∨ string.tag = .object) :
    charAt index string = .error (.operands .getChar index.tag string.tag) := by
  unfold charAt
  split
  · rcases h with h | h <;> cases h
  · rfl

theorem order?_of_object (a b : Value) (h : a.tag = .object ∨ b.tag = .object) :
    order? a b = none := by
  unfold order?
  split
  case h_5 => rfl
  all_goals rcases h with h | h <;> cases h

/-- Twins compare alike, as far as the comparison does not ask whether objects are the same. -/
theorem comparison_twin (op : Opcode) {a a' b b' : Value} (ha : a.Twin a') (hb : b.Twin b')
    (hsame : a'.same b' = a.same b) : comparison op a' b' = comparison op a b := by
  unfold comparison
  split
  · rw [hsame]
  · rw [hsame]
  · -- Once equality is settled, an order is needed, and an object has none.
    by_cases hobject : a.tag = .object ∨ b.tag = .object
    · have hobject' : a'.tag = .object ∨ b'.tag = .object := by
        rw [ha.tag_eq, hb.tag_eq]
        exact hobject
      rw [order?_of_object a b hobject, order?_of_object a' b' hobject', ha.tag_eq, hb.tag_eq]
    · rw [ha.eq_of_ne fun h => hobject (.inl h), hb.eq_of_ne fun h => hobject (.inr h)]

end Value

/-! ## Relations made from a relation of values -/

/-- The records have the same fields with corresponding values. -/
def Record.Related (R : Value → Value → Prop) (r r' : Record) : Prop :=
  List.Forall₂ (fun f f' => f'.1 = f.1 ∧ R f.2 f'.2) r.fields r'.fields

def Cause.object? : Cause → Option ObjectId
  | .noObject id => some id
  | .freedObject id => some id
  | .unknownField id _ => some id
  | _ => none

/-- The causes are the same, but that they may be about objects that correspond to each other. -/
inductive Cause.Related (R : Value → Value → Prop) : Cause → Cause → Prop where
  | same {cause : Cause} (h : cause.object? = none) : Related R cause cause
  | noObject {i j : ObjectId} (h : R (.object i) (.object j)) :
      Related R (.noObject i) (.noObject j)
  | freedObject {i j : ObjectId} (h : R (.object i) (.object j)) :
      Related R (.freedObject i) (.freedObject j)
  | unknownField {i j : ObjectId} (h : R (.object i) (.object j)) (field : String) :
      Related R (.unknownField i field) (.unknownField j field)

/-- Both outcomes are results, or both are faults. -/
inductive Outcomes {α β : Type} (E : Cause → Cause → Prop) (S : α → β → Prop) :
    Except Cause α → Except Cause β → Prop where
  | ok {a : α} {b : β} (h : S a b) : Outcomes E S (.ok a) (.ok b)
  | error {c c' : Cause} (h : E c c') : Outcomes E S (.error c) (.error c')

/-- Only causes of two kinds are about an object. -/
theorem Cause.object?_eq_none {c : Cause} (hobject : c.kind ≠ .invalidObject)
    (hfield : c.kind ≠ .unknownField) : c.object? = none := by
  cases c with
  | noObject _ | freedObject _ => exact absurd rfl hobject
  | unknownField _ _ => exact absurd rfl hfield
  | _ => rfl

/-- A cause about operands is not about an object: it names their tags. -/
theorem Cause.object?_of_isAboutOperands {c : Cause} (h : c.kind.isAboutOperands = true) :
    c.object? = none := by
  refine Cause.object?_eq_none ?_ ?_ <;>
    · intro hkind
      rw [hkind] at h
      cases h

/-- A cause of input and output is not about an object. -/
theorem Cause.object?_of_io {c : Cause} (h : c.kind = .io) : c.object? = none := by
  refine Cause.object?_eq_none ?_ ?_ <;>
    · rw [h]
      decide

/-! ## Correspondences -/

/-- Values, heaps, consoles and profiles of two machines that correspond to each other, such that
all an instruction does with them keeps the correspondence. -/
structure Correspondence where
  value : Value → Value → Prop
  heap : Heap → Heap → Prop
  console : Console → Console → Prop
  profile : Option Profile → Option Profile → Prop
  /-- Whether one of two corresponding heaps may have ids left when the other one has not. -/
  uneven : Prop
  plain : ∀ v, v.tag ≠ .object → value v v
  twin : ∀ v w, value v w → v.Twin w
  same : ∀ v w v' w', value v w → value v' w' → w.same w' = v.same v'
  alloc : ∀ h h' names, heap h h' →
    (∃ i j g g', h.alloc names = .ok (i, g) ∧ h'.alloc names = .ok (j, g') ∧
      value (.object i) (.object j) ∧ heap g g') ∨
    (h.alloc names = .error .heapExhausted ∧ h'.alloc names = .error .heapExhausted) ∨
    uneven ∧ (h.alloc names = .error .heapExhausted ∨ h'.alloc names = .error .heapExhausted)
  object : ∀ h h' i j, heap h h' → value (.object i) (.object j) →
    Outcomes (Cause.Related value) (Record.Related value) (h.object i) (h'.object j)
  put : ∀ h h' i j cell cell', heap h h' → value (.object i) (.object j) →
    Option.Rel (Record.Related value) cell cell' → heap (h.put i cell) (h'.put j cell')
  print : ∀ c c' v w, console c c' → value v w →
    (c'.print w.text).1 = (c.print v.text).1 ∧ console (c.print v.text).2 (c'.print w.text).2
  readLine : ∀ c c', console c c' →
    c'.readLine.1 = c.readLine.1 ∧ console c.readLine.2 c'.readLine.2
  observe : ∀ p p' f, profile p p' → profile (p.map f) (p'.map f)

namespace Correspondence

variable (C : Correspondence)

/-- If the instruction pushes a literal, then this literal corresponds to itself. -/
def Admits (i : Instruction) : Prop :=
  i.opcode = .push → ∀ v, Operand.value? i.operand = some v → C.value v v

/-- The activations are at the same instruction of the same function, with corresponding slots and
operands. -/
structure Activations (a a' : Activation) : Prop where
  blueprint : a'.blueprint = a.blueprint
  pc : a'.pc = a.pc
  slots : List.Forall₂ C.value a.slots a'.slots
  stack : List.Forall₂ C.value a.stack a'.stack
  code : ∀ i ∈ a.blueprint.code.toList, C.Admits i

structure Locals (l l' : Local) : Prop where
  top : C.Activations l.top l'.top
  heap : C.heap l.heap l'.heap
  console : C.console l.console l'.console

/-- Both actions end with corresponding results or for corresponding causes, and with what they can
reach still in correspondence; or ids have run out for one of them. -/
inductive Results {α : Type} (S : α → α → Prop) :
    EStateM.Result Cause Local α → EStateM.Result Cause Local α → Prop where
  | ok {a a' : α} {l l' : Local} (ha : S a a') (hl : C.Locals l l') :
      Results S (.ok a l) (.ok a' l')
  | error {c c' : Cause} {l l' : Local} (hc : c.Related C.value c') (hl : C.Locals l l') :
      Results S (.error c l) (.error c' l')
  | parted {x x' : EStateM.Result Cause Local α} (huneven : C.uneven)
      (hexhausted : (∃ l, x = .error .heapExhausted l) ∨ ∃ l, x' = .error .heapExhausted l) :
      Results S x x'

/-- From corresponding activations, heaps and consoles, the two actions have corresponding
results. -/
def Pairs {α : Type} (S : α → α → Prop) (x x' : Action α) : Prop :=
  ∀ l l', C.Locals l l' → C.Results S (x l) (x' l')

/-- The values that instructions hand on correspond to each other. -/
inductive Flows : Flow → Flow → Prop where
  | next : Flows .next .next
  | call (name : String) : Flows (.call name) (.call name)
  | ret {v v' : Value} (hv : C.value v v') : Flows (.ret v) (.ret v')

end Correspondence

end RecordMachine
