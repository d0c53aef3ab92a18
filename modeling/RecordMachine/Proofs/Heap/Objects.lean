import Mathlib.Logic.Function.Basic
import RecordMachine.Heap

/-!
# The heap through its objects

What an operation does to a heap is told by what `Heap.object` says of every id afterwards: making,
freeing and changing an object each change the answer for one id. Proofs about the heap go by these
equations and leave the cells alone.

A record in turn is told by the values of its fields. `Record.fill` lays a function from names to
values out over a list of names; where a name is repeated, only its first field takes part.
-/

namespace RecordMachine

/-! ## Records -/

namespace Record

/-- Fields with these names, the first field of each name with its value and all others nil. -/
def fill (values : String → Value) : List String → List (String × Value)
  | [] => []
  | name :: rest => (name, values name) :: fill (Function.update values name .nil) rest

/-- A new record is filled with `nil`. -/
theorem make_eq_fill (names : List String) : make names = ⟨fill (fun _ => .nil) names⟩ := by
  unfold make
  congr 1
  induction names with
  | nil => rfl
  | cons name rest ih =>
    have hnil : Function.update (fun _ => Value.nil) name .nil = fun _ : String => Value.nil :=
      Function.update_eq_self name _
    rw [List.map_cons, fill, hnil, ih]

/-- A field that exists has its value, also if its name is repeated. Induction on the names: where
one is met, the rest no longer counts for it. -/
theorem get?_fill (values : String → Value) (names : List String) (field : String) :
    get? ⟨fill values names⟩ field = if field ∈ names then some (values field) else none := by
  unfold get?
  dsimp only
  induction names generalizing values with
  | nil => rfl
  | cons name rest ih =>
    rw [fill]
    by_cases hname : name = field
    · rw [List.find?_cons_of_pos (by simpa using hname), if_pos (by simp [hname]), hname]
      rfl
    · have hne : field ≠ name := fun h => hname h.symm
      rw [List.find?_cons_of_neg (by simpa using hname), ih, Function.update_of_ne hne]
      simp only [List.mem_cons, hne, false_or]

/-- Setting a field updates the function that the record is filled with. -/
theorem set?_fill (values : String → Value) (names : List String) (field : String) (v : Value) :
    set? ⟨fill values names⟩ field v =
      if field ∈ names then some ⟨fill (Function.update values field v) names⟩ else none := by
  -- By induction on the names. Behind the first field of the name the function is `nil` anyway.
  have hfields : setIn? field v (fill values names) =
      if field ∈ names then some (fill (Function.update values field v) names) else none := by
    induction names generalizing values with
    | nil => rfl
    | cons name rest ih =>
      rw [fill, setIn?]
      by_cases hname : name = field
      · subst hname
        rw [if_pos rfl, if_pos List.mem_cons_self, fill, Function.update_self, Function.update_idem]
      · have hne : field ≠ name := fun h => hname h.symm
        rw [if_neg hname, ih, fill, Function.update_of_ne hname, Function.update_comm hname]
        simp only [List.mem_cons, hne, false_or]
        split <;> rfl
  unfold set?
  rw [hfields]
  split <;> rfl

/-- Setting a field changes the value of this name and of no other. -/
theorem get?_of_set? {r r' : Record} {field : String} {v : Value} (hset : r.set? field v = some r')
    (name : String) : r'.get? name = if name = field then some v else r.get? name := by
  obtain ⟨fields', hfields, rfl⟩ := Option.map_eq_some_iff.1 hset
  clear hset
  unfold get?
  dsimp only
  -- The induction is on the fields up to the first one of this name.
  generalize r.fields = fields at hfields
  induction fields generalizing fields' with
  | nil => cases hfields
  | cons f rest ih =>
    rw [setIn?] at hfields
    split at hfields
    · next hfirst =>
      cases hfields
      subst hfirst
      by_cases hname : name = f.1
      · simp [hname]
      · simp [hname, Ne.symm hname]
    · next hfirst =>
      obtain ⟨rest', hrest, rfl⟩ := Option.map_eq_some_iff.1 hfields
      have hkeep := ih rest' hrest
      by_cases hname : f.1 = name
      · simp [hname, hname ▸ hfirst]
      · simpa [hname] using hkeep

/-- The values of all fields, those of a repeated name included. -/
def values (r : Record) : List Value := r.fields.map Prod.snd

/-- The value of a field is one of the values of the record. -/
theorem mem_values_of_get? {r : Record} {field : String} {v : Value}
    (hget : r.get? field = some v) :
    v ∈ r.values := by
  obtain ⟨f, hf, rfl⟩ := Option.map_eq_some_iff.1 hget
  exact List.mem_map_of_mem (List.mem_of_find?_eq_some hf)

/-- Setting a field brings no value into the record but the one that is set. Induction on the
fields. -/
theorem mem_values_of_set? {r r' : Record} {field : String} {v w : Value}
    (hset : r.set? field v = some r') (hw : w ∈ r'.values) : w = v ∨ w ∈ r.values := by
  obtain ⟨fields', hfields, rfl⟩ := Option.map_eq_some_iff.1 hset
  clear hset
  unfold values at hw ⊢
  dsimp only at hw
  -- The induction is on the fields, as in `get?_of_set?`.
  generalize r.fields = fields at hfields
  induction fields generalizing fields' with
  | nil => cases hfields
  | cons f rest ih =>
    rw [setIn?] at hfields
    split at hfields
    · cases hfields
      rw [List.map_cons, List.mem_cons] at hw ⊢
      exact hw.imp_right .inr
    · obtain ⟨rest', hrest, rfl⟩ := Option.map_eq_some_iff.1 hfields
      rw [List.map_cons, List.mem_cons] at hw ⊢
      rcases hw with hw | hw
      · exact .inr (.inl hw)
      · exact (ih rest' hw hrest).imp_right .inr

theorem eq_nil_of_mem_make {names : List String} {v : Value} (hv : v ∈ (make names).values) :
    v = .nil := by
  unfold values make at hv
  rw [List.map_map] at hv
  obtain ⟨name, _, rfl⟩ := List.mem_map.1 hv
  rfl

end Record

/-! ## Objects -/

namespace Heap

variable {h h' : Heap} {id : ObjectId}

/-- There is an object where its cell is filled, at the distance of the id from the base. -/
theorem object_eq_ok_iff {r : Record} :
    h.object id = .ok r ↔ h.base ≤ id ∧ h.cells[id - h.base]? = some (some r) := by
  unfold object
  split
  · -- An id below the first one has no cell.
    next hlt =>
    constructor
    · nofun
    · rintro ⟨hle, _⟩
      exact absurd hlt (Nat.not_lt.2 hle)
  · next hge =>
    split
    · next found hcell =>
      constructor
      · rintro ⟨⟩
        exact ⟨Nat.not_lt.1 hge, hcell⟩
      · rintro ⟨_, hsame⟩
        cases hcell.symm.trans hsame
        rfl
    · -- The cell was emptied when its object was freed.
      next hcell =>
      constructor
      · nofun
      · rintro ⟨_, hsame⟩
        cases hcell.symm.trans hsame
    · next hcell =>
      constructor
      · nofun
      · rintro ⟨_, hsame⟩
        cases hcell.symm.trans hsame

/-- Where there is an object, its id is within the cells. -/
theorem lt_of_object_eq_ok {r : Record} (hobject : h.object id = .ok r) :
    h.base ≤ id ∧ id < h.base + h.cells.size := by
  obtain ⟨hle, hcell⟩ := object_eq_ok_iff.1 hobject
  have hlt := (Array.getElem?_eq_some_iff.1 hcell).1
  exact ⟨hle, (Nat.sub_lt_iff_lt_add' hle).1 hlt⟩

/-- A new object gets the next id, and its cell stands behind all others. -/
theorem alloc_eq_ok {names : List String} (halloc : h.alloc names = .ok (id, h')) :
    id = h.base + h.cells.size ∧ id < Decimal.wordLimit ∧
      h' = { h with cells := h.cells.push (some (Record.make names)) } := by
  unfold alloc at halloc
  dsimp only at halloc
  split at halloc
  · next hlt =>
    cases halloc
    exact ⟨rfl, hlt, rfl⟩
  · cases halloc

/-- Making an object fails only if ids have run out. -/
theorem alloc_eq_error {names : List String} {cause : Cause}
    (halloc : h.alloc names = .error cause) :
    cause = .heapExhausted := by
  unfold alloc at halloc
  dsimp only at halloc
  split at halloc
  · cases halloc
  · cases halloc
    rfl

/-- Making an object changes what is said of its id only. -/
theorem object_alloc {names : List String} (halloc : h.alloc names = .ok (id, h'))
    (other : ObjectId) :
    h'.object other = if other = id then .ok (Record.make names) else h.object other := by
  obtain ⟨rfl, _, rfl⟩ := alloc_eq_ok halloc
  by_cases hother : other = h.base + h.cells.size
  · subst hother
    rw [if_pos rfl, object_eq_ok_iff]
    refine ⟨Nat.le_add_right _ _, ?_⟩
    rw [Nat.add_sub_cancel_left]
    exact Array.getElem?_push_size
  · rw [if_neg hother]
    unfold object
    dsimp only
    split
    · rfl
    · rw [Array.getElem?_push, if_neg (by grind)]

/-- Replacing the cell of an object changes what is said of its id only. -/
theorem object_put {r : Record} (hobject : h.object id = .ok r) (cell : Option Record)
    (other : ObjectId) :
    (h.put id cell).object other =
      if other = id then cell.elim (.error (.freedObject id)) .ok else h.object other := by
  obtain ⟨hle, hlt⟩ := lt_of_object_eq_ok hobject
  unfold object put
  dsimp only
  by_cases hother : other = id
  · subst hother
    rw [if_pos rfl, if_neg (Nat.not_lt.2 hle), Array.getElem?_setIfInBounds, if_pos rfl,
      if_pos ((Nat.sub_lt_iff_lt_add' hle).2 hlt)]
    cases cell <;> rfl
  · rw [if_neg hother]
    split
    · rfl
    · rw [Array.getElem?_setIfInBounds, if_neg (by grind)]

/-- What is freed was an object, and its cell is emptied. -/
theorem free_eq_ok (hfree : h.free id = .ok h') :
    ∃ r, h.object id = .ok r ∧ h' = h.put id none := by
  unfold free at hfree
  split at hfree
  · next r hobject =>
    cases hfree
    exact ⟨r, hobject, rfl⟩
  · cases hfree

/-- Setting a field replaces the record of an object by one with the field set. -/
theorem setField_eq_ok {field : String} {v : Value} (hset : h.setField id field v = .ok h') :
    ∃ r r', h.object id = .ok r ∧ r.set? field v = some r' ∧ h' = h.put id (some r') := by
  unfold setField at hset
  split at hset
  · next r hobject =>
    split at hset
    · next r' hr' =>
      cases hset
      exact ⟨r, r', hobject, hr', rfl⟩
    · cases hset
  · cases hset

theorem getField_eq_ok {field : String} {v : Value} (hget : h.getField id field = .ok v) :
    ∃ r, h.object id = .ok r ∧ r.get? field = some v := by
  unfold getField at hget
  split at hget
  · next r hobject =>
    split at hget
    · next hv =>
      cases hget
      exact ⟨r, hobject, hv⟩
    · cases hget
  · cases hget

@[simp] theorem base_put (h : Heap) (id : ObjectId) (cell : Option Record) :
    (h.put id cell).base = h.base := rfl

@[simp] theorem size_put (h : Heap) (id : ObjectId) (cell : Option Record) :
    (h.put id cell).cells.size = h.cells.size :=
  Array.size_setIfInBounds

theorem liveCount_alloc {names : List String} (halloc : h.alloc names = .ok (id, h')) :
    h'.liveCount = h.liveCount + 1 := by
  obtain ⟨_, _, rfl⟩ := alloc_eq_ok halloc
  unfold liveCount
  rw [Array.toList_push, List.countP_append]
  rfl

/-- Replacing the cell of an object takes it from the count, and adds what the new cell holds. -/
theorem liveCount_put {r : Record} (hobject : h.object id = .ok r) (cell : Option Record) :
    (h.put id cell).liveCount + 1 = h.liveCount + cell.toList.length := by
  obtain ⟨_, hcell⟩ := object_eq_ok_iff.1 hobject
  rw [← Array.getElem?_toList] at hcell
  obtain ⟨hlt, hget⟩ := List.getElem?_eq_some_iff.1 hcell
  -- The cell that is replaced was filled, so the count was positive.
  have hpos : 0 < h.cells.toList.countP Option.isSome :=
    List.countP_pos_iff.2 ⟨some r, List.mem_of_getElem? hcell, rfl⟩
  unfold liveCount put
  dsimp only
  rw [Array.toList_setIfInBounds, List.countP_set hlt, hget]
  cases cell with
  | none => simp only [Option.isSome_some, if_true, Option.isSome_none, Option.toList]; grind
  | some r' => simp only [Option.isSome_some, if_true, Option.toList]; grind

/-- Setting a field changes this field of this object and nothing else. -/
theorem getField_setField {field : String} {v : Value} (hset : h.setField id field v = .ok h')
    (other : ObjectId) (name : String) :
    h'.getField other name =
      if other = id ∧ name = field then .ok v else h.getField other name := by
  obtain ⟨r, r', hr, hr', rfl⟩ := setField_eq_ok hset
  unfold getField
  rw [object_put hr]
  by_cases hother : other = id
  · subst hother
    rw [if_pos rfl, hr]
    dsimp only [Option.elim]
    rw [Record.get?_of_set? hr']
    by_cases hname : name = field
    · rw [if_pos hname, if_pos ⟨rfl, hname⟩]
    · rw [if_neg hname, if_neg (fun hboth => hname hboth.2)]
  · rw [if_neg hother, if_neg (fun hboth => hother hboth.1)]

/-- Setting a field leaves all other objects alone. -/
theorem object_setField {field : String} {v : Value} (hset : h.setField id field v = .ok h')
    {other : ObjectId} (hother : other ≠ id) : h'.object other = h.object other := by
  obtain ⟨r, r', hr, _, rfl⟩ := setField_eq_ok hset
  rw [object_put hr, if_neg hother]

/-! ## All objects -/

theorem mem_live_iff {r : Record} : (id, r) ∈ h.live ↔ h.object id = .ok r := by
  unfold live
  rw [List.mem_filterMap, object_eq_ok_iff]
  constructor
  · rintro ⟨⟨cell, index⟩, hcell, hsome⟩
    obtain ⟨r', rfl, heq⟩ := Option.map_eq_some_iff.1 hsome
    cases heq
    rw [List.mem_zipIdx_iff_getElem?, Array.getElem?_toList] at hcell
    exact ⟨Nat.le_add_right _ _, by rw [Nat.add_sub_cancel_left]; exact hcell⟩
  · rintro ⟨hle, hcell⟩
    refine ⟨(some r, id - h.base), ?_, ?_⟩
    · rw [List.mem_zipIdx_iff_getElem?, Array.getElem?_toList]
      exact hcell
    · simp only [Option.map_some, Nat.add_sub_cancel' hle]

/-- The ids of the listing ascend, as they are counted along the cells. -/
theorem pairwise_live (h : Heap) : (h.live.map Prod.fst).Pairwise (· < ·) := by
  have hindex : h.cells.toList.zipIdx.Pairwise fun x y => x.2 < y.2 := by
    rw [← List.pairwise_map, List.zipIdx_map_snd]
    exact List.pairwise_lt_range'
  unfold live
  rw [List.pairwise_map, List.pairwise_filterMap]
  refine hindex.imp fun {x y} hlt b hb b' hb' => ?_
  obtain ⟨r, _, rfl⟩ := Option.map_eq_some_iff.1 hb
  obtain ⟨r', _, rfl⟩ := Option.map_eq_some_iff.1 hb'
  exact Nat.add_lt_add_left hlt h.base

end Heap

end RecordMachine
