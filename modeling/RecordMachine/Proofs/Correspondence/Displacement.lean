import RecordMachine.Proofs.Correspondence.Renaming
import RecordMachine.Proofs.Heap.Objects
import RecordMachine.Proofs.Lowering.Literals

/-!
# Displaced objects

Nothing that a machine does depends on where the ids of its objects begin, or on what is on the heap
below them. Let one heap begin with some old cells and the other one with none, and let `b₁` and
`b₂` be the ids at which the new cells begin. Then objects that lie equally far above `b₁` and `b₂`
correspond to each other, with corresponding fields (`Correspondence.displaced`). No old object
corresponds to anything: code that names no object never gets to see one, and all old cells stay as
they are.

Corresponding objects are renamed by `displace b₁ b₂`. If `b₁` and `b₂` differ, one of the heaps may
run out of ids before the other one does.
-/

namespace RecordMachine

/-- The id that lies as far above `b₂` as the given one above `b₁`. -/
def displace (b₁ b₂ id : ObjectId) : ObjectId := id - b₁ + b₂

/-! ## Values -/

/-- The values are the same, or they are objects that lie equally far above `b₁` and `b₂`. -/
inductive Value.Displaced (b₁ b₂ : ObjectId) : Value → Value → Prop where
  | plain {v : Value} (h : v.tag ≠ .object) : Displaced b₁ b₂ v v
  | object (k : Nat) : Displaced b₁ b₂ (.object (b₁ + k)) (.object (b₂ + k))

namespace Value.Displaced

variable {b₁ b₂ : ObjectId} {v w v' w' : Value}

/-- Displaced objects have a common distance from their bases. -/
theorem exists_of_object {i j : ObjectId} (h : Displaced b₁ b₂ (.object i) (.object j)) :
    ∃ k, i = b₁ + k ∧ j = b₂ + k := by
  cases h with
  | plain hne => exact absurd rfl hne
  | object k => exact ⟨k, rfl, rfl⟩

theorem twin (h : Displaced b₁ b₂ v w) : v.Twin w := by
  cases h with
  | plain _ => exact .inl rfl
  | object k => exact .inr ⟨rfl, rfl⟩

/-- A displaced value is the renamed one, so that renaming tells all that a result can show. -/
theorem eq_rename (h : Displaced b₁ b₂ v w) : w = v.rename (displace b₁ b₂) := by
  cases h with
  | plain hne =>
    cases v with
    | object id => exact absurd rfl hne
    | _ => rfl
  | object k =>
    have hk : b₂ + k = b₁ + k - b₁ + b₂ := by
      rw [Nat.add_sub_cancel_left, Nat.add_comm]
    exact congrArg Value.object hk

/-- Without a distance between the bases, corresponding values are the same. -/
theorem eq_rename_id {b : ObjectId} (h : Displaced b b v w) : w = v.rename id := by
  rw [Value.rename_id]
  cases h with
  | plain _ => rfl
  | object k => rfl

/-- No value other than an object is the same as an object. -/
theorem same_object (h : v.tag ≠ .object) (i : ObjectId) :
    v.same (.object i) = false ∧ (Value.object i).same v = false := by
  cases v with
  | object id => exact absurd rfl h
  | _ => exact ⟨rfl, rfl⟩

/-- Displacement is injective on objects, so that values are the same on one side exactly if they
are on the other. -/
theorem same_eq (h : Displaced b₁ b₂ v w) (h' : Displaced b₁ b₂ v' w') : w.same w' = v.same v' := by
  cases h with
  | plain hne =>
    cases h' with
    | plain _ => rfl
    | object k => rw [(same_object hne _).1, (same_object hne _).1]
  | object k =>
    cases h' with
    | plain hne => rw [(same_object hne _).2, (same_object hne _).2]
    | object k' =>
      -- Adding a base does not make ids equal that were not.
      show (b₂ + k == b₂ + k') = (b₁ + k == b₁ + k')
      simp

end Value.Displaced

/-! ## Heaps -/

/-- The first heap has the `old` cells, and after them, from `b₁` on, what the second heap has from
`b₂` on. -/
structure Heap.Displaced (old : List (Option Record)) (b₁ b₂ : ObjectId) (h h' : Heap) : Prop where
  base : h.base + old.length = b₁
  base_right : h'.base = b₂
  cells : ∃ new, h.cells.toList = old ++ new ∧
    List.Forall₂ (Option.Rel (Record.Related (Value.Displaced b₁ b₂))) new h'.cells.toList

namespace Heap.Displaced

variable {old : List (Option Record)} {b₁ b₂ : ObjectId} {h h' : Heap}

/-- Beside a heap without objects, all cells are old. -/
theorem start (h : Heap) {b : ObjectId} (hb : h.base + h.cells.size = b) (b' : ObjectId) :
    h.Displaced h.cells.toList b b' (.new b') :=
  ⟨hb, rfl, [], (List.append_nil _).symm, .nil⟩

/-- The first heap has as many cells more as there are old ones. -/
theorem size_eq (hh : h.Displaced old b₁ b₂ h') : h.cells.size = old.length + h'.cells.size := by
  obtain ⟨new, hcells, hnew⟩ := hh.cells
  rw [← Array.length_toList, ← Array.length_toList, hcells, List.length_append, hnew.length_eq]

/-- The cell of the new object with the number `k` stands behind the old cells. -/
theorem index_left (hh : h.Displaced old b₁ b₂ h') (k : Nat) :
    b₁ + k - h.base = old.length + k := by
  rw [← hh.base, Nat.add_assoc, Nat.add_sub_cancel_left]

theorem index_right (hh : h.Displaced old b₁ b₂ h') (k : Nat) : b₂ + k - h'.base = k := by
  rw [hh.base_right, Nat.add_sub_cancel_left]

/-- Ids that lie equally far above the bases have corresponding cells. -/
theorem cell (hh : h.Displaced old b₁ b₂ h') (k : Nat) :
    Option.Rel (Option.Rel (Record.Related (Value.Displaced b₁ b₂)))
      h.cells[b₁ + k - h.base]? h'.cells[b₂ + k - h'.base]? := by
  obtain ⟨new, hcells, hnew⟩ := hh.cells
  rw [hh.index_left, hh.index_right, ← Array.getElem?_toList, ← Array.getElem?_toList, hcells,
    List.getElem?_append_right (Nat.le_add_right _ _), Nat.add_sub_cancel_left]
  exact forall₂_getElem? hnew k

/-- Objects at the same distance hold corresponding records, or were both freed, or were never
made. -/
theorem object (hh : h.Displaced old b₁ b₂ h') (k : Nat) :
    Outcomes (Cause.Related (Value.Displaced b₁ b₂)) (Record.Related (Value.Displaced b₁ b₂))
      (h.object (b₁ + k)) (h'.object (b₂ + k)) := by
  have hcell := hh.cell k
  -- Neither id lies below its heap.
  have hge : ¬ b₁ + k < h.base := by
    rw [← hh.base, Nat.add_assoc]
    exact Nat.not_lt.2 (Nat.le_add_right _ _)
  have hge' : ¬ b₂ + k < h'.base := by
    rw [hh.base_right]
    exact Nat.not_lt.2 (Nat.le_add_right _ _)
  unfold Heap.object
  rw [if_neg hge, if_neg hge']
  generalize h.cells[b₁ + k - h.base]? = found at hcell ⊢
  generalize h'.cells[b₂ + k - h'.base]? = found' at hcell ⊢
  cases hcell with
  | none => exact .error (.noObject (.object k))
  | some hcell =>
    cases hcell with
    | none => exact .error (.freedObject (.object k))
    | some hr => exact .ok hr

/-- Overwriting corresponding cells leaves the old ones alone, since they all lie below `b₁`. -/
theorem put (hh : h.Displaced old b₁ b₂ h') (k : Nat) {cell cell' : Option Record}
    (hcell : Option.Rel (Record.Related (Value.Displaced b₁ b₂)) cell cell') :
    (h.put (b₁ + k) cell).Displaced old b₁ b₂ (h'.put (b₂ + k) cell') := by
  obtain ⟨new, hcells, hnew⟩ := hh.cells
  refine ⟨hh.base, hh.base_right, new.set k cell, ?_, ?_⟩
  · unfold Heap.put
    rw [hh.index_left, Array.toList_setIfInBounds, hcells,
      List.set_append_right _ _ (Nat.le_add_right _ _),
      Nat.add_sub_cancel_left]
  · unfold Heap.put
    rw [hh.index_right, Array.toList_setIfInBounds]
    exact forall₂_set hnew hcell k

/-- A new object has the same fields on both sides, all of them `nil`. -/
theorem push (hh : h.Displaced old b₁ b₂ h') (names : List String) :
    Heap.Displaced old b₁ b₂ { h with cells := h.cells.push (some (Record.make names)) }
      { h' with cells := h'.cells.push (some (Record.make names)) } := by
  obtain ⟨new, hcells, hnew⟩ := hh.cells
  have hnil : Value.nil.tag ≠ .object := by decide
  have hmake : (Record.make names).Related (Value.Displaced b₁ b₂) (Record.make names) := by
    unfold Record.Related Record.make
    refine List.forall₂_map_left_iff.2 (List.forall₂_map_right_iff.2 ?_)
    exact List.forall₂_same.2 fun _ _ => ⟨rfl, .plain hnil⟩
  refine ⟨hh.base, hh.base_right, new ++ [some (Record.make names)], ?_, ?_⟩
  · rw [Array.toList_push, hcells, List.append_assoc]
  · rw [Array.toList_push]
    exact List.rel_append hnew (.cons (.some hmake) .nil)

/-- Both heaps make an object at the same distance from their bases, unless there is no id left. -/
theorem alloc (hh : h.Displaced old b₁ b₂ h') (names : List String) :
    (∃ i j g g', h.alloc names = .ok (i, g) ∧ h'.alloc names = .ok (j, g') ∧
      Value.Displaced b₁ b₂ (.object i) (.object j) ∧ g.Displaced old b₁ b₂ g') ∨
    (h.alloc names = .error .heapExhausted ∧ h'.alloc names = .error .heapExhausted) ∨
    b₁ ≠ b₂ ∧ (h.alloc names = .error .heapExhausted ∨ h'.alloc names = .error .heapExhausted) := by
  -- The ids that come next lie equally far above `b₁` and `b₂`.
  have hnext : h.base + h.cells.size = b₁ + h'.cells.size := by
    rw [hh.size_eq, ← Nat.add_assoc, hh.base]
  have hnext' : h'.base + h'.cells.size = b₂ + h'.cells.size := by rw [hh.base_right]
  unfold Heap.alloc
  dsimp only
  rw [hnext, hnext']
  -- Whether there is an id left is asked on each side for itself.
  by_cases hleft : b₁ + h'.cells.size < Decimal.wordLimit
  · by_cases hright : b₂ + h'.cells.size < Decimal.wordLimit
    · rw [if_pos hleft, if_pos hright]
      exact .inl ⟨_, _, _, _, rfl, rfl, .object h'.cells.size, hh.push names⟩
    · rw [if_neg hright]
      exact .inr (.inr ⟨fun hsame => hright (hsame ▸ hleft), .inr rfl⟩)
  · by_cases hright : b₂ + h'.cells.size < Decimal.wordLimit
    · rw [if_neg hleft]
      exact .inr (.inr ⟨fun hsame => hleft (hsame ▸ hright), .inl rfl⟩)
    · rw [if_neg hleft, if_neg hright]
      exact .inr (.inl ⟨rfl, rfl⟩)

end Heap.Displaced

/-! ## The correspondence -/

namespace Correspondence

/-- Displaced values and heaps, on consoles whose outputs may be compared in any way that prints and
reads respect. The profiles are not compared. -/
def displaced (old : List (Option Record)) (b₁ b₂ : ObjectId) (console : Console → Console → Prop)
    (print : ∀ c c' v w, console c c' → Value.Displaced b₁ b₂ v w →
      (c'.print w.text).1 = (c.print v.text).1 ∧ console (c.print v.text).2 (c'.print w.text).2)
    (readLine : ∀ c c', console c c' →
      c'.readLine.1 = c.readLine.1 ∧ console c.readLine.2 c'.readLine.2) : Correspondence where
  value := Value.Displaced b₁ b₂
  heap := Heap.Displaced old b₁ b₂
  console := console
  profile _ _ := True
  uneven := b₁ ≠ b₂
  plain _ := .plain
  twin _ _ h := h.twin
  same _ _ _ _ h h' := h.same_eq h'
  alloc _ _ names hh := hh.alloc names
  object := by
    intro h h' i j hh hid
    obtain ⟨k, rfl, rfl⟩ := hid.exists_of_object
    exact hh.object k
  put := by
    intro h h' i j cell cell' hh hid hcell
    obtain ⟨k, rfl, rfl⟩ := hid.exists_of_object
    exact hh.put k hcell
  print := print
  readLine := readLine
  observe _ _ _ _ := trivial

end Correspondence

/-! ## Machines -/

/-- A literal that unforged code pushes is no object. -/
theorem Instruction.tag_ne_of_forges {i : Instruction} {v : Value} (hi : i.forges = false)
    (hop : i.opcode = .push) (hv : Operand.value? i.operand = some v) : v.tag ≠ .object := by
  intro htag
  obtain ⟨id, rfl⟩ := Value.exists_of_tag htag
  unfold Instruction.forges at hi
  rw [hop, Operand.eq_of_value? hv] at hi
  cases hi

def Machine.based (m : Machine) (base : ObjectId) : Machine :=
  { m with settings := { m.settings with heapBase := base } }

namespace Correspondence

variable {C : Correspondence}

/-- Unforged code pushes no object, and every other literal corresponds to itself. -/
theorem admits_of_unforged {bc : Bytecode} (hplain : bc.Unforged) {name : String} {b : Blueprint}
    (hb : bc.get? name = some b) : ∀ i ∈ b.code.toList, C.Admits i := by
  intro i hi hop v hv
  have hforges : i.forges = false := hplain b (Bytecode.mem_of_get? hb).1 i hi
  exact C.plain v (Instruction.tag_ne_of_forges hforges hop hv)

/-- Machines that differ in the id of the first object, with code that names no object and nothing
shown. -/
theorem machines_based {m : Machine} (hplain : m.bytecode.Unforged)
    (htrace : m.settings.trace = false)
    (b b' : ObjectId) : C.Machines (m.based b) (m.based b') where
  bytecode := rfl
  entryPoint := rfl
  maxCallDepth := rfl
  code _ _ hb := admits_of_unforged hplain hb
  shows := by
    intro s s' a a' i hs _
    have hquiet (base : ObjectId) (t : State) (a : Activation) :
        (m.based base).showInstruction t a i = (.ok (), t) := by
      unfold Machine.showInstruction
      exact if_neg (by simp [Machine.based, htrace])
    exact ⟨s, s', hquiet b s a, hquiet b' s' a', hs⟩

end Correspondence

end RecordMachine
