import RecordMachine.Lowering.Expression

/-!
# Code along indices

A property of instructions that depends on the index at which they stand holds along a piece of code
(`Along`), and so along its parts (`along_append`). That a piece stands in a longer code from some
index on is such a property (`Placed`).
-/

namespace RecordMachine

/-! ## Elements along indices -/

/-- Every element of a list, placed from `base` on, satisfies `P` at its index. -/
def Along {α : Type} (P : Nat → α → Prop) (base : Nat) (xs : List α) : Prop :=
  ∀ j x, xs[j]? = some x → P (base + j) x

section Along

variable {α : Type} {P : Nat → α → Prop} {base : Nat}

theorem along_nil : Along P base [] := by
  intro j x hx
  cases hx

/-- The first element stands at the base, the others from the next index on. -/
theorem along_cons {x : α} {xs : List α} :
    Along P base (x :: xs) ↔ P base x ∧ Along P (base + 1) xs := by
  constructor
  · intro h
    refine ⟨h 0 x rfl, ?_⟩
    intro j y hy
    rw [Nat.add_assoc, Nat.add_comm 1 j]
    exact h (j + 1) y hy
  · rintro ⟨hhead, htail⟩ j y hy
    cases j with
    | zero =>
      cases hy
      exact hhead
    | succ j =>
      have hrest := htail j y hy
      rw [Nat.add_assoc, Nat.add_comm 1 j] at hrest
      exact hrest

/-- The second part stands behind the first one. Induction on the first part. -/
theorem along_append {xs ys : List α} :
    Along P base (xs ++ ys) ↔ Along P base xs ∧ Along P (base + xs.length) ys := by
  induction xs generalizing base with
  | nil =>
    rw [List.nil_append, List.length_nil, Nat.add_zero]
    exact ⟨fun h => ⟨along_nil, h⟩, fun h => h.2⟩
  | cons x xs ih =>
    have hshift : base + (x :: xs).length = base + 1 + xs.length := by
      rw [List.length_cons]
      omega
    rw [List.cons_append, along_cons, along_cons, ih, hshift, and_assoc]

end Along

/-! ## Code inside code -/

/-- The instructions `seg` stand in the code from index `pos` on. -/
def Placed (code : Array Instruction) (pos : Nat) (seg : Code) : Prop :=
  Along (fun k i => code[k]? = some i) pos seg

/-- Two pieces that stand one behind the other stand each at its place. -/
theorem Placed.append {code : Array Instruction} {pos : Nat} {first second : Code}
    (h : Placed code pos (first ++ second)) :
    Placed code pos first ∧ Placed code (pos + first.length) second :=
  along_append.1 h

/-- The first instruction of a piece is the one at its index. -/
theorem Placed.head {code : Array Instruction} {pos : Nat} {i : Instruction} {seg : Code}
    (h : Placed code pos (i :: seg)) : code[pos]? = some i :=
  (along_cons.1 h).1

/-- The other instructions stand from the next index on. -/
theorem Placed.tail {code : Array Instruction} {pos : Nat} {i : Instruction} {seg : Code}
    (h : Placed code pos (i :: seg)) : Placed code (pos + 1) seg :=
  (along_cons.1 h).2

end RecordMachine
