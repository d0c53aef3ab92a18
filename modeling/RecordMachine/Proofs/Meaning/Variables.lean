import Mathlib.Data.List.Forall2
import RecordMachine.Proofs.Lowering.Scoping
import RecordMachine.Proofs.Meaning.Simulation

/-!
# Variables and their slots

`Agrees scope env slots` says that the flat slots of an activation hold the values of the visible
variables: binding by binding, the scope of lowering and the environment of the interpreter name the
same variables, and the slot of each holds its value. Declarations, assignments and the end of a
block keep the two in step. Slots of variables that are no longer visible may hold anything.
-/

namespace RecordMachine

/-! ## Slots -/

namespace Activation

/-- Storing sets the slot, also one that has to be made first. -/
theorem getElem?_store_self (a : Activation) (slot : Nat) (v : Value) :
    (a.store slot v).slots[slot]? = some v := by
  unfold store
  split
  · next hlt => simp [hlt]
  · next hge =>
    have hlen : (a.slots ++ List.replicate (slot - a.slots.length) Value.nil).length = slot := by
      rw [List.length_append, List.length_replicate]
      omega
    rw [List.getElem?_append_right (by omega), hlen, Nat.sub_self]
    rfl

/-- Storing leaves the other slots that there are. -/
theorem getElem?_store_of_ne {a : Activation} {slot k : Nat} {v x : Value} (hk : k ≠ slot)
    (hx : a.slots[k]? = some x) : (a.store slot v).slots[k]? = some x := by
  have hlt : k < a.slots.length := (List.getElem?_eq_some_iff.1 hx).1
  unfold store
  split
  · rw [List.getElem?_set_ne (Ne.symm hk)]
    exact hx
  · rw [List.append_assoc, List.getElem?_append_left hlt]
    exact hx

/-- Storing changes nothing but the slots. -/
theorem store_eq (a : Activation) (slot : Nat) (v : Value) :
    a.store slot v = { a with slots := (a.store slot v).slots } := by
  unfold store
  split <;> rfl

end Activation

/-! ## Agreement -/

/-- The slots hold the values of the visible variables. -/
def Agrees (scope : Scope) (env : Environment) (slots : List Value) : Prop :=
  List.Forall₂ (fun b x => b.name = x.1 ∧ slots[b.slot]? = some x.2) scope.bindings env

namespace Agrees

variable {scope scope' : Scope} {env : Environment} {slots : List Value}

/-- A name that stands for a slot is the name of a variable, whose value the slot holds. Induction
along the bindings, which both sides search from the latest on. -/
theorem get? {name : String} {slot : Nat} (h : Agrees scope env slots)
    (hslot : scope.resolve? name = some slot) :
    ∃ v, env.get? name = some v ∧ slots[slot]? = some v := by
  unfold Agrees at h
  unfold Scope.resolve? at hslot
  -- The bindings and the environment list the same variables, the one declared last in front.
  generalize scope.bindings = bindings at h hslot
  induction h with
  | nil => cases hslot
  | @cons b x bindings env hb _ ih =>
    obtain ⟨other, v⟩ := x
    rw [List.find?_cons] at hslot
    rw [Environment.get?]
    by_cases hname : other = name
    · have hcmp : (b.name == name) = true := by simp [hb.1, hname]
      rw [hcmp] at hslot
      rw [if_pos hname]
      cases hslot
      exact ⟨v, rfl, hb.2⟩
    · have hcmp : (b.name == name) = false := by simp [hb.1, hname]
      rw [hcmp] at hslot
      rw [if_neg hname]
      exact ih hslot

/-- A name that stands for no slot is no variable, either. -/
theorem assign?_eq_none {name : String} (h : Agrees scope env slots)
    (hslot : scope.resolve? name = none) (v : Value) : env.assign? name v = none := by
  unfold Agrees at h
  unfold Scope.resolve? at hslot
  generalize scope.bindings = bindings at h hslot
  induction h with
  | nil => rfl
  | @cons b x bindings env hb _ ih =>
    obtain ⟨other, old⟩ := x
    rw [List.find?_cons] at hslot
    rw [Environment.assign?]
    by_cases hname : other = name
    · have hcmp : (b.name == name) = true := by simp [hb.1, hname]
      rw [hcmp] at hslot
      cases hslot
    · have hcmp : (b.name == name) = false := by simp [hb.1, hname]
      rw [hcmp] at hslot
      rw [if_neg hname, ih hslot]
      rfl

/-- Storing into a slot leaves the variables in other slots alone. -/
theorem store_of_ne {a : Activation} {bindings : List Binding} {slot : Nat} {v : Value}
    (h : List.Forall₂ (fun b (x : String × Value) => b.name = x.1 ∧ a.slots[b.slot]? = some x.2)
      bindings env)
    (hne : ∀ b ∈ bindings, b.slot ≠ slot) :
    List.Forall₂ (fun b x => b.name = x.1 ∧ (a.store slot v).slots[b.slot]? = some x.2)
      bindings env := by
  induction h with
  | nil => exact .nil
  | @cons b x bindings env hb _ ih =>
    refine .cons ⟨hb.1, ?_⟩ (ih fun b hb => hne b (List.mem_cons_of_mem _ hb))
    exact Activation.getElem?_store_of_ne (hne b List.mem_cons_self) hb.2

/-- Storing into the next free slot declares a variable. -/
theorem declare {a : Activation} {name : String} {v : Value} (h : Agrees scope env a.slots)
    (hord : scope.Orderly) :
    Agrees (scope.declare name) ((name, v) :: env) (a.store scope.nextSlot v).slots := by
  refine .cons ⟨rfl, Activation.getElem?_store_self a _ v⟩ (store_of_ne h ?_)
  intro b hb
  exact Nat.ne_of_lt (hord.fresh b hb)

/-- Storing into the slot of a visible variable sets that variable and no other one. -/
theorem assign {a : Activation} {name : String} {slot : Nat} {v : Value}
    (h : Agrees scope env a.slots) (hord : scope.Orderly)
    (hslot : scope.resolve? name = some slot) :
    ∃ env', env.assign? name v = some env' ∧ Agrees scope env' (a.store slot v).slots := by
  have hdecreasing := hord.decreasing
  unfold Agrees at h ⊢
  unfold Scope.resolve? at hslot
  generalize scope.bindings = bindings at h hslot hdecreasing
  induction h with
  | nil => cases hslot
  | @cons b x bindings env hb htail ih =>
    obtain ⟨other, old⟩ := x
    obtain ⟨hlater, hdecreasing⟩ := List.pairwise_cons.1 hdecreasing
    rw [List.find?_cons] at hslot
    rw [Environment.assign?]
    by_cases hname : other = name
    · have hcmp : (b.name == name) = true := by simp [hb.1, hname]
      rw [hcmp] at hslot
      cases hslot
      rw [if_pos hname]
      refine ⟨_, rfl, .cons ⟨hb.1, Activation.getElem?_store_self a _ v⟩ (store_of_ne htail ?_)⟩
      -- The variables behind this one were declared earlier, so their slots are smaller.
      intro b' hb'
      exact Nat.ne_of_lt (hlater b' hb')
    · have hcmp : (b.name == name) = false := by simp [hb.1, hname]
      rw [hcmp] at hslot
      obtain ⟨env', henv', hagrees⟩ := ih hslot hdecreasing
      rw [if_neg hname, henv']
      refine ⟨_, rfl, .cons ⟨hb.1, ?_⟩ hagrees⟩
      -- The variable that is set was declared before this one.
      obtain ⟨b', hfound, rfl⟩ := Option.map_eq_some_iff.1 hslot
      have hearlier : b'.slot < b.slot := hlater b' (List.mem_of_find?_eq_some hfound)
      exact Activation.getElem?_store_of_ne (Nat.ne_of_gt hearlier) hb.2

/-- Only the visible variables of a scope matter. -/
theorem of_bindings (h : Agrees scope env slots) (heq : scope'.bindings = scope.bindings) :
    Agrees scope' env slots := by
  unfold Agrees
  rw [heq]
  exact h

/-- There are as many variables in the scope as in the environment. -/
theorem length_eq (h : Agrees scope env slots) : scope.bindings.length = env.length :=
  List.Forall₂.length_eq h

/-- Dropping what was declared since gives back the variables from before. -/
theorem outermost {new : List Binding} (h : Agrees scope' env slots)
    (hnew : scope'.bindings = new ++ scope.bindings) {count : Nat}
    (hcount : scope.bindings.length = count) : Agrees scope (env.outermost count) slots := by
  have hlen : env.length - count = new.length := by
    rw [← h.length_eq, hnew, List.length_append]
    omega
  unfold Agrees at h ⊢
  rw [hnew] at h
  have hdrop := List.forall₂_drop new.length h
  rw [List.drop_left] at hdrop
  unfold Environment.outermost
  rw [hlen]
  exact hdrop

/-- The end of a block: what it declared is gone, and the rest has the values that it was given. -/
theorem closing (h : Agrees scope' env slots) (hord : scope.Orderly)
    (hgrows : scope.enter.Grows scope') {count : Nat} (hcount : scope.bindings.length = count) :
    Agrees scope'.leave (env.outermost count) slots := by
  obtain ⟨new, hnew, _⟩ := hgrows.bindings
  have houter : Agrees scope (env.outermost count) slots := h.outermost hnew hcount
  exact houter.of_bindings (Scope.bindings_leave hord hgrows)

/-- The arguments of a call are the values of its parameters. -/
theorem ofArgs {params : List Param} {args : List Value} (hlen : args.length = params.length) :
    Agrees (Scope.ofParams (params.map Param.name)) (Environment.ofArgs params args) args := by
  -- Parameter by parameter, where `front` holds the arguments of those before.
  have hzip : ∀ (names : List String) (front back : List Value), back.length = names.length →
      List.Forall₂ (fun (b : Binding) (x : String × Value) =>
          b.name = x.1 ∧ (front ++ back)[b.slot]? = some x.2)
        ((names.zipIdx front.length).map fun x => ⟨x.1, x.2, 0⟩) (names.zip back) := by
    intro names
    induction names with
    | nil =>
      intro front back _
      exact .nil
    | cons name names ih =>
      intro front back hback
      cases back with
      | nil => cases hback
      | cons v back =>
        have htail := ih (front ++ [v]) back (by simpa using hback)
        rw [List.append_assoc, List.length_append] at htail
        refine .cons ⟨rfl, ?_⟩ htail
        show (front ++ v :: back)[front.length]? = some v
        rw [List.getElem?_append_right (Nat.le_refl _), Nat.sub_self]
        rfl
  unfold Agrees Environment.ofArgs
  rw [Scope.ofParams_eq, List.forall₂_reverse_iff]
  exact hzip _ [] args (by rw [List.length_map, hlen])

end Agrees

end RecordMachine
