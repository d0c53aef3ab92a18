import RecordMachine.Proofs.Correspondence.Lockstep

/-!
# Renamed objects

A correspondence that relates each value to the same value with its object renamed, and to no other,
makes the states of two machines equal up to that renaming. So do the answers of their runs
(`Correspondence.Renames.run`): the same place, the same cause but for the object that it is about.
If nothing is renamed, the activations and the answers are the same.
-/

namespace RecordMachine

section Rename

variable (ρ : ObjectId → ObjectId)

def Value.rename : Value → Value
  | .object id => .object (ρ id)
  | v => v

def Record.rename (r : Record) : Record := ⟨r.fields.map fun f => (f.1, f.2.rename ρ)⟩

/-- The heap with its ids, and those in the fields of its objects, renamed. -/
def Heap.rename (h : Heap) : Heap := ⟨ρ h.base, h.cells.map (Option.map (Record.rename ρ))⟩

def Activation.rename (a : Activation) : Activation :=
  { a with slots := a.slots.map (Value.rename ρ), stack := a.stack.map (Value.rename ρ) }

def Cause.rename : Cause → Cause
  | .noObject id => .noObject (ρ id)
  | .freedObject id => .freedObject (ρ id)
  | .unknownField id field => .unknownField (ρ id) field
  | cause => cause

def Fault.rename (fault : Fault) : Fault := { fault with cause := fault.cause.rename ρ }

/-- The answer of a run, with the objects renamed that are in it. -/
def renameAnswer : Except Fault Value → Except Fault Value
  | .ok v => .ok (v.rename ρ)
  | .error fault => .error (fault.rename ρ)

/-- A cause that is about no object stays as it is. -/
theorem Cause.rename_of_object? {c : Cause} (h : c.object? = none) : c.rename ρ = c := by
  cases c with
  | noObject _ | freedObject _ | unknownField _ _ => cases h
  | _ => rfl

@[simp] theorem Cause.kind_rename (c : Cause) : (c.rename ρ).kind = c.kind := by
  cases c <;> rfl

/-- Renaming keeps the kind and the place of a fault. -/
theorem kind_of_renameAnswer {result : Except Fault Value} {fault fault' : Fault}
    (hfault : result = .error fault) (hfault' : renameAnswer ρ result = .error fault') :
    fault'.cause.kind = fault.cause.kind ∧ fault'.location = fault.location := by
  subst hfault
  cases hfault'
  exact ⟨fault.cause.kind_rename ρ, rfl⟩

end Rename

/-! ## Nothing renamed -/

@[simp] theorem Value.rename_id (v : Value) : v.rename id = v := by
  cases v <;> rfl

theorem Value.rename_id_eq : Value.rename id = id := funext Value.rename_id

@[simp] theorem Record.rename_id (r : Record) : r.rename id = r := by
  simp [Record.rename]

@[simp] theorem Activation.rename_id (a : Activation) : a.rename id = a := by
  simp [Activation.rename, Value.rename_id_eq]

/-- With nothing renamed an answer is itself. The remaining lemmas of this section say so of its
parts. -/
@[simp] theorem renameAnswer_id (result : Except Fault Value) :
    renameAnswer id result = result := by
  rcases result with ⟨cause, location⟩ | v
  · cases cause <;> rfl
  · cases v <;> rfl

/-! ## Correspondences that rename -/

/-- A relation that is the graph of a function makes one list the image of the other. Induction on
the lists. -/
theorem eq_map_of_forall₂ {α β : Type} {R : α → β → Prop} {f : α → β} (hR : ∀ a b, R a b → b = f a)
    {l : List α} {l' : List β} (h : List.Forall₂ R l l') : l' = l.map f := by
  induction h with
  | nil => rfl
  | cons hab _ ih => rw [List.map_cons, ← hR _ _ hab, ← ih]

theorem rel_imp {α β : Type} {R S : α → β → Prop} (himp : ∀ a b, R a b → S a b) {x : Option α}
    {y : Option β} (h : Option.Rel R x y) : Option.Rel S x y := by
  cases h with
  | none => exact .none
  | some hab => exact .some (himp _ _ hab)

/-- Records with the same names and renamed values are renamed records. -/
theorem Record.Related.eq_rename {R : Value → Value → Prop} {ρ : ObjectId → ObjectId}
    (hR : ∀ v w, R v w → w = v.rename ρ) {r r' : Record} (hr : r.Related R r') :
    r' = r.rename ρ := by
  have hfields : r'.fields = r.fields.map fun f => (f.1, f.2.rename ρ) := by
    refine eq_map_of_forall₂ ?_ hr
    rintro ⟨name, v⟩ ⟨name', v'⟩ ⟨rfl, hv⟩
    rw [hR v v' hv]
  exact congrArg Record.mk hfields

namespace Correspondence

/-- Corresponding values are the same but for their ids, which `ρ` renames. -/
def Renames (C : Correspondence) (ρ : ObjectId → ObjectId) : Prop :=
  ∀ v w, C.value v w → w = v.rename ρ

namespace Renames

variable {C : Correspondence} {ρ : ObjectId → ObjectId} (hρ : C.Renames ρ)

include hρ

/-- Corresponding activations are the same up to renaming, as they are at the same place. -/
theorem activation {a a' : Activation} (ha : C.Activations a a') : a' = a.rename ρ := by
  have hslots : a'.slots = a.slots.map (Value.rename ρ) := eq_map_of_forall₂ hρ ha.slots
  have hstack : a'.stack = a.stack.map (Value.rename ρ) := eq_map_of_forall₂ hρ ha.stack
  calc a' = ⟨a'.blueprint, a'.slots, a'.stack, a'.pc⟩ := rfl
    _ = a.rename ρ := by
      rw [ha.blueprint, ha.pc, hslots, hstack]
      rfl

theorem frames {frames frames' : List Activation}
    (hframes : List.Forall₂ C.Activations frames frames') :
    frames' = frames.map (Activation.rename ρ) :=
  eq_map_of_forall₂ (fun _ _ ha => hρ.activation ha) hframes

/-- Corresponding causes are the same up to renaming the object that they are about. -/
theorem cause {c c' : Cause} (hc : c.Related C.value c') : c' = c.rename ρ := by
  cases hc with
  | same hnone => exact (Cause.rename_of_object? ρ hnone).symm
  | noObject hid | freedObject hid | unknownField hid _ =>
    cases hρ _ _ hid
    rfl

/-- The answers of corresponding steps are the same up to renaming, and the states correspond. -/
theorem answer {r r' : Step} (hr : C.Steps r r') :
    C.States r.state r'.state ∧
      r'.answer?.map Prod.fst = (r.answer?.map Prod.fst).map (renameAnswer ρ) := by
  cases hr with
  | next hs => exact ⟨hs, rfl⟩
  | done hv hs =>
    cases hρ _ _ hv
    exact ⟨hs, rfl⟩
  | failed place hc hs =>
    cases hρ.cause hc
    exact ⟨hs, rfl⟩

/-- Corresponding machines have corresponding runs, unless they part. -/
theorem run {m m' : Machine} (hm : C.Machines m m') (s s' : State) {b : Blueprint}
    (hentry : m.entry = .ok b) (hheap : C.heap s.heap s'.heap)
    (hconsole : C.console s.console s'.console) (hprofile : C.profile s.profile s'.profile)
    (n : Nat) :
    C.Parted (m.advance n (m.begin s b)) (m'.advance n (m'.begin s' b)) ∨
      Option.Rel (fun r r' => r'.1 = renameAnswer ρ r.1 ∧ C.States r.2 r'.2)
        (m.run n s) (m'.run n s') := by
  have hbegin := hm.begin s s' hentry hheap hconsole hprofile
  rw [Machine.run_of_entry hentry, Machine.run_of_entry (hm.entry_eq.trans hentry)]
  -- Unless the runs part, what they have come to corresponds, and each reports the end of its own.
  refine (lockstep hm hbegin n).imp_right fun hlockstep => ?_
  have hsteps := hlockstep.1
  generalize m.advance n (m.begin s b) = r at hsteps ⊢
  generalize m'.advance n (m'.begin s' b) = r' at hsteps ⊢
  cases hsteps with
  | next _ => exact .none
  | done hv hs =>
    cases hρ _ _ hv
    exact .some ⟨rfl, hs.finish (.ok _) (.ok _)⟩
  | failed place hc hs =>
    cases hρ.cause hc
    exact .some ⟨rfl, hs.finish (.error _) (.error _)⟩

end Renames

/-- If nothing is renamed, the activations are the same. -/
theorem Renames.frames_eq {C : Correspondence} (h : C.Renames id) {frames frames' : List Activation}
    (hframes : List.Forall₂ C.Activations frames frames') : frames' = frames := by
  rw [h.frames hframes, funext Activation.rename_id]
  exact List.map_id frames

end Correspondence

end RecordMachine
