import Mathlib.Data.Finset.Card
import Mathlib.Data.List.Induction
import RecordMachine.Bytecode

/-!
# Insertions

A program keeps of the blueprints that were inserted into it the last one of each name, in the order
in which the names came first (`Bytecode.Recalls`). An insertion changes the blueprints and the
index, or only the blueprints. What it does to a look-up (`Bytecode.get?_insert`) and to the order
of the names (`Bytecode.names_insert`) is said once, and the rest follows by induction on the
insertions.
-/

namespace RecordMachine.Bytecode

variable {bc : Bytecode} {name : String} {slot : Nat}

/-! ## One insertion -/

/-- A slot that a name leads to is one of the blueprints. -/
theorem slot_lt_length (h : bc.slot? name = some slot) : slot < bc.blueprints.length := by
  obtain ⟨hlt, _⟩ := List.getElem?_eq_some_iff.1 (slot?_eq_some_iff.1 h)
  rwa [names, List.length_map] at hlt

/-- No two names lead to the same slot. -/
theorem slot?_injective {other : String} (h : bc.slot? name = some slot)
    (hother : bc.slot? other = some slot) : name = other := by
  rw [slot?_eq_some_iff] at h hother
  exact Option.some.inj (h.symm.trans hother)

/-- After an insertion the name leads to the new blueprint, and all others lead where they did. -/
theorem get?_insert (bc : Bytecode) (b : Blueprint) (name : String) :
    (bc.insert b).get? name = if b.name = name then some b else bc.get? name := by
  unfold insert
  split
  · next slot hslot =>
    show ((bc.slot? name).bind fun i => (bc.blueprints.set slot b)[i]?) = _
    split
    · next hname =>
      rw [← hname, hslot, Option.bind_some, List.getElem?_set_self (slot_lt_length hslot)]
    · next hname =>
      -- The slot that is overwritten belongs to no other name.
      apply Option.bind_congr
      intro i hi
      rw [List.getElem?_set_ne]
      rintro rfl
      exact hname (slot?_injective hslot hi)
  · next hslot =>
    show (((bc.index.set b.name bc.size).get? name).bind fun i => (bc.blueprints ++ [b])[i]?) = _
    -- A new name leads to the blueprint behind all others, which are where they were.
    rw [Dictionary.get?_set]
    split
    · rw [Option.bind_some, size, List.getElem?_concat_length]
    · apply Option.bind_congr
      intro i hi
      rw [List.getElem?_append_left (slot_lt_length hi)]

/-- A new name comes behind the others, and an old one stays where it is. -/
theorem names_insert (bc : Bytecode) (b : Blueprint) :
    (bc.insert b).names = if b.name ∈ bc.names then bc.names else bc.names ++ [b.name] := by
  unfold insert
  split
  · next slot hslot =>
    rw [if_pos (List.mem_of_getElem? (slot?_eq_some_iff.1 hslot))]
    exact map_name_set hslot
  · next hslot =>
    have hnew : b.name ∉ bc.names := by
      intro hmem
      have hcontains : bc.contains b.name = true := contains_iff.2 hmem
      rw [contains, hslot] at hcontains
      cases hcontains
    rw [if_neg hnew]
    exact List.map_append

/-! ## All insertions -/

theorem ofList_concat (history : List Blueprint) (b : Blueprint) :
    ofList (history ++ [b]) = (ofList history).insert b :=
  List.foldl_concat _ _ _ _

/-- A look-up finds the last blueprint of the name, that is the first one from the end. Induction on
the insertions, the last one split off. -/
theorem get?_ofList (history : List Blueprint) (name : String) :
    (ofList history).get? name = history.reverse.find? fun b => b.name == name := by
  induction history using List.reverseRecOn with
  | nil => rfl
  | append_singleton history b ih =>
    rw [ofList_concat, get?_insert, List.reverse_concat, List.find?_cons, ih]
    split
    · next hname => rw [beq_iff_eq.2 hname]
    · next hname => rw [beq_eq_false_iff_ne.2 hname]

/-- No name is lost, and none comes from elsewhere. -/
theorem mem_names_ofList (history : List Blueprint) (name : String) :
    name ∈ (ofList history).names ↔ name ∈ history.map Blueprint.name := by
  rw [names, ← contains_iff, contains_eq_isSome, get?_ofList]
  simp [List.find?_isSome]

/-- The names stand in the order of their first insertions. -/
theorem pairwise_names_ofList (history : List Blueprint) :
    (ofList history).names.Pairwise fun first second =>
      (history.map Blueprint.name).idxOf first < (history.map Blueprint.name).idxOf second := by
  induction history using List.reverseRecOn with
  | nil => exact .nil
  | append_singleton history b ih =>
    have hmem := mem_names_ofList history
    -- Names that were inserted before keep their places in the history.
    have hkept : (ofList history).names.Pairwise fun first second =>
        ((history ++ [b]).map Blueprint.name).idxOf first
          < ((history ++ [b]).map Blueprint.name).idxOf second := by
      apply ih.imp_of_mem
      intro first second hfirst hsecond hlt
      rw [List.map_append, List.idxOf_append_of_mem ((hmem first).1 hfirst),
        List.idxOf_append_of_mem ((hmem second).1 hsecond)]
      exact hlt
    rw [ofList_concat, names_insert]
    split
    · exact hkept
    · next hnew =>
      rw [List.pairwise_append]
      refine ⟨hkept, List.pairwise_singleton _ _, ?_⟩
      intro first hfirst second hsecond
      -- A new name comes first at the end of the history, behind all names before it.
      rw [List.mem_singleton.1 hsecond, List.map_append,
        List.idxOf_append_of_mem ((hmem first).1 hfirst),
        List.idxOf_append_of_notMem (fun hin => hnew ((hmem b.name).2 hin))]
      exact Nat.lt_add_right _ (List.idxOf_lt_length_of_mem ((hmem first).1 hfirst))

/-- There are as many blueprints as different names, since no name stands there twice. -/
theorem size_ofList (history : List Blueprint) :
    (ofList history).size = (history.map Blueprint.name).toFinset.card := by
  have hnames : (ofList history).names.toFinset = (history.map Blueprint.name).toFinset := by
    ext name
    rw [List.mem_toFinset, List.mem_toFinset, mem_names_ofList]
  calc (ofList history).size
      = (ofList history).names.length := (List.length_map _).symm
    _ = (ofList history).names.toFinset.card := (List.toFinset_card_of_nodup (distinct _)).symm
    _ = (history.map Blueprint.name).toFinset.card := by rw [hnames]

/-- Among the insertions, `b` is the last one under a name. -/
def LastUnder (history : List Blueprint) (name : String) (b : Blueprint) : Prop :=
  ∃ before after, history = before ++ b :: after ∧ b.name = name ∧ ∀ c ∈ after, c.name ≠ name

/-- A look-up finds the blueprint behind which the name was not inserted again. -/
theorem get?_ofList_eq_some_iff {history : List Blueprint} {b : Blueprint} :
    (ofList history).get? name = some b ↔ LastUnder history name b := by
  rw [get?_ofList, List.find?_eq_some_iff_append]
  constructor
  · rintro ⟨hname, after, before, hsplit, hafter⟩
    refine ⟨before.reverse, after.reverse, ?_, beq_iff_eq.1 hname, ?_⟩
    · rw [← List.reverse_reverse history, hsplit]
      simp
    · intro c hc
      simpa using hafter c (List.mem_reverse.1 hc)
  · rintro ⟨before, after, rfl, hname, hafter⟩
    refine ⟨beq_iff_eq.2 hname, after.reverse, before.reverse, by simp, ?_⟩
    intro c hc
    simpa using hafter c (List.mem_reverse.1 hc)

/-- What a program keeps of the blueprints that were inserted into it. -/
structure Recalls (bc : Bytecode) (history : List Blueprint) : Prop where
  /-- A look-up finds the blueprint that was inserted last under the name. -/
  last : ∀ name b, bc.get? name = some b ↔ LastUnder history name b
  /-- It finds none exactly if none was inserted under the name. -/
  missing : ∀ name, bc.get? name = none ↔ ∀ b ∈ history, b.name ≠ name
  contained : ∀ name, bc.contains name = true ↔ ∃ b, bc.get? name = some b
  /-- The names are those that were inserted, each of them once. -/
  inserted : ∀ name, name ∈ bc.blueprints.map Blueprint.name ↔ ∃ b ∈ history, b.name = name
  once : (bc.blueprints.map Blueprint.name).Nodup
  /-- They stand in the order in which they were inserted first. -/
  ordered : (bc.blueprints.map Blueprint.name).Pairwise fun first second =>
    (history.map Blueprint.name).idxOf first < (history.map Blueprint.name).idxOf second
  /-- Each of them stands there with the blueprint that a look-up finds. -/
  current : ∀ b ∈ bc.blueprints, bc.get? b.name = some b
  /-- There are as many blueprints as different names. -/
  counted : bc.size = (history.map Blueprint.name).toFinset.card
  /-- The slot of a name, which look-ups read and insertions overwrite, is within the blueprints. -/
  bounded : ∀ name slot, bc.slot? name = some slot → slot < bc.blueprints.length

/-- After any insertions a program is the map of them in the order of the first insertion of each
name. -/
theorem ofList_recalls (history : List Blueprint) : (ofList history).Recalls history where
  last := fun _ _ => get?_ofList_eq_some_iff
  missing := by
    intro name
    rw [get?_ofList, List.find?_eq_none]
    simp
  contained := by
    intro name
    rw [contains_eq_isSome, Option.isSome_iff_exists]
  inserted := fun name => (mem_names_ofList history name).trans List.mem_map
  once := distinct _
  ordered := pairwise_names_ofList history
  current := fun _ hb => get?_eq_some_iff.2 ⟨hb, rfl⟩
  counted := size_ofList history
  bounded := fun _ _ => slot_lt_length

example :
    let bc := ofList [⟨"f", 1, #[]⟩, ⟨"main", 0, #[]⟩, ⟨"f", 2, #[]⟩]
    bc.names = ["f", "main"] ∧ (bc.get? "f").map Blueprint.params = some 2 ∧
      bc.slot? "f" = some 0 := by
  decide

end RecordMachine.Bytecode
