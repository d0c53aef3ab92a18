import RecordMachine.Blueprint
import RecordMachine.Dictionary

/-!
# Bytecode

A compiled program: its blueprints in the order in which their names were first inserted, and an
index that gives each name the slot at which its blueprint stands. A name occurs once, and inserting
it again replaces its blueprint there. What is looked up through the index is what a search among
the blueprints would find (`Bytecode.get?_eq_find?`).
-/

namespace RecordMachine

/-- A compiled program. -/
structure Bytecode where
  blueprints : List Blueprint
  /-- The slots of the names. -/
  index : Dictionary Nat
  /-- A name has a slot exactly if its blueprint stands there. -/
  indexed : ∀ name slot,
    index.get? name = some slot ↔ (blueprints.map Blueprint.name)[slot]? = some name

namespace Bytecode

def empty : Bytecode := ⟨[], {}, fun _ _ => by simp [Dictionary.get?]⟩

instance : Inhabited Bytecode := ⟨empty⟩

def slot? (bc : Bytecode) (name : String) : Option Nat := bc.index.get? name

def get? (bc : Bytecode) (name : String) : Option Blueprint :=
  (bc.slot? name).bind fun slot => bc.blueprints[slot]?

def contains (bc : Bytecode) (name : String) : Bool :=
  (bc.slot? name).isSome

def size (bc : Bytecode) : Nat := bc.blueprints.length

def names (bc : Bytecode) : List String := bc.blueprints.map Blueprint.name

theorem slot?_eq_some_iff {bc : Bytecode} {name : String} {slot : Nat} :
    bc.slot? name = some slot ↔ bc.names[slot]? = some name :=
  bc.indexed name slot

/-- Replacing the blueprint at the slot of its name keeps every name in its place. -/
theorem map_name_set {bc : Bytecode} {b : Blueprint} {slot : Nat}
    (h : bc.slot? b.name = some slot) :
    (bc.blueprints.set slot b).map Blueprint.name = bc.names := by
  obtain ⟨hlt, hname⟩ := List.getElem?_eq_some_iff.1 (slot?_eq_some_iff.1 h)
  calc (bc.blueprints.set slot b).map Blueprint.name
      = bc.names.set slot b.name := List.map_set
    _ = bc.names.set slot bc.names[slot] := by rw [hname]
    _ = bc.names := List.set_getElem_self hlt

/-- A new name gets the slot behind the others. -/
theorem indexed_append {bc : Bytecode} {b : Blueprint} (h : bc.slot? b.name = none) (name : String)
    (slot : Nat) :
    (bc.index.set b.name bc.size).get? name = some slot ↔
      ((bc.blueprints ++ [b]).map Blueprint.name)[slot]? = some name := by
  have hsize : bc.names.length = bc.size := List.length_map _
  have hconcat : (bc.names ++ [b.name])[slot]? = some name ↔
      bc.names[slot]? = some name ∨ (bc.size = slot ∧ b.name = name) := by
    rw [← hsize]
    grind
  rw [Dictionary.get?_set, List.map_append]
  refine Iff.trans ?_ hconcat.symm
  rw [← slot?_eq_some_iff]
  split
  · next heq =>
    subst heq
    simp [h]
  · next hne => simp [hne, slot?]

/-- Adds a blueprint at the end, or in place of the one of its name. -/
def insert (bc : Bytecode) (b : Blueprint) : Bytecode :=
  match h : bc.slot? b.name with
  | some slot => ⟨bc.blueprints.set slot b, bc.index, by rw [map_name_set h]; exact bc.indexed⟩
  | none => ⟨bc.blueprints ++ [b], bc.index.set b.name bc.size, indexed_append h⟩

/-- The program that a list of blueprints makes, inserted one by one. -/
def ofList (blueprints : List Blueprint) : Bytecode :=
  blueprints.foldl insert empty

/-- The dump of a program: the dumps of its blueprints in order. -/
def dump (bc : Bytecode) : String :=
  String.join (bc.blueprints.map Blueprint.text)

/-! ## Looking up -/

variable {bc : Bytecode} {name : String}

/-- No two blueprints share a name, since a name has one slot. -/
theorem distinct (bc : Bytecode) : (bc.blueprints.map Blueprint.name).Nodup := by
  unfold List.Nodup
  rw [List.pairwise_iff_getElem]
  intro i j hi hj hlt heq
  have hfirst := (bc.indexed _ i).2 (List.getElem?_eq_getElem hi)
  have hsecond := (bc.indexed _ j).2 (List.getElem?_eq_getElem hj)
  rw [heq, hsecond] at hfirst
  exact Nat.ne_of_gt hlt (Option.some.inj hfirst)

/-- A name is contained exactly if a blueprint carries it. -/
theorem contains_iff : bc.contains name = true ↔ name ∈ bc.blueprints.map Blueprint.name := by
  unfold contains
  rw [Option.isSome_iff_exists, List.mem_iff_getElem?]
  exact exists_congr fun _ => slot?_eq_some_iff

/-- The blueprint of a name is the one that carries it. -/
theorem get?_eq_some_iff {b : Blueprint} :
    bc.get? name = some b ↔ b ∈ bc.blueprints ∧ b.name = name := by
  unfold get?
  rw [Option.bind_eq_some_iff]
  constructor
  · rintro ⟨slot, hslot, hb⟩
    have hname : bc.names[slot]? = some name := slot?_eq_some_iff.1 hslot
    rw [names, List.getElem?_map, hb] at hname
    exact ⟨List.mem_of_getElem? hb, Option.some.inj hname⟩
  · rintro ⟨hmem, rfl⟩
    obtain ⟨slot, hslot⟩ := List.mem_iff_getElem?.1 hmem
    refine ⟨slot, slot?_eq_some_iff.2 ?_, hslot⟩
    rw [names, List.getElem?_map, hslot]
    rfl

/-- A name is contained exactly if there is a blueprint for it. -/
theorem contains_eq_isSome (bc : Bytecode) (name : String) :
    bc.contains name = (bc.get? name).isSome := by
  rw [Bool.eq_iff_iff, contains_iff, Option.isSome_iff_exists, List.mem_map]
  exact exists_congr fun _ => get?_eq_some_iff.symm

/-- The index leads to the blueprint that a search from the first one on would find. -/
theorem get?_eq_find? (bc : Bytecode) (name : String) :
    bc.get? name = bc.blueprints.find? fun b => b.name == name := by
  cases hfound : bc.blueprints.find? fun b => b.name == name with
  | none =>
    rw [Option.eq_none_iff_forall_ne_some]
    intro b hb
    obtain ⟨hmem, hname⟩ := get?_eq_some_iff.1 hb
    exact List.find?_eq_none.1 hfound b hmem (beq_iff_eq.2 hname)
  | some b =>
    have hname : b.name = name := by simpa using List.find?_some hfound
    exact get?_eq_some_iff.2 ⟨List.mem_of_find?_eq_some hfound, hname⟩

end Bytecode

end RecordMachine
