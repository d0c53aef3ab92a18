import Mathlib.Data.List.Forall2
import Mathlib.Data.List.Nodup
import RecordMachine.Proofs.Lowering.Shape

/-!
# Blueprints of a program

A program that lowering accepts has one blueprint for each of its functions, in the same order
(`Program.lower_forall₂`), and looking up a name among the blueprints finds the one of the function
of that name (`Program.get?_of_lower`). The table that a program makes of itself answers as the
program does: a function has as many parameters as it declares (`TypeTable.arity?_ofProgram`), and a
record type has the fields of its last declaration (`TypeTable.fields?_ofProgram`).
-/

namespace RecordMachine

/-! ## One function -/

/-- The blueprint of a function: its name, the number of its parameters, and the code of its body
with what closes it. -/
theorem FunDecl.lower_eq_ok {f : FunDecl} {table : TypeTable} {types : List TypeDecl}
    {b : Blueprint} (h : f.lower table types = .ok b) :
    ∃ c scope', SequenceCode ⟨table, types, f.name⟩ 0 (Scope.ofParams (f.params.map Param.name))
        f.body c scope' ∧
      b = ⟨f.name, f.params.length, (c ++ closingCode f.body).toArray⟩ := by
  unfold FunDecl.lower at h
  obtain ⟨⟨c, scope'⟩, hbody, hb⟩ := bind_eq_ok.1 h
  cases hb
  exact ⟨c, scope', Stmt.sequence_shape hbody, rfl⟩

theorem FunDecl.name_of_lower {f : FunDecl} {table : TypeTable} {types : List TypeDecl}
    {b : Blueprint} (h : f.lower table types = .ok b) : b.name = f.name := by
  obtain ⟨_, _, _, rfl⟩ := FunDecl.lower_eq_ok h
  rfl

/-- The blueprint of a function takes as many values as the function has parameters. -/
theorem FunDecl.params_of_lower {f : FunDecl} {table : TypeTable} {types : List TypeDecl}
    {b : Blueprint} (h : f.lower table types = .ok b) : b.params = f.params.length := by
  obtain ⟨_, _, _, rfl⟩ := FunDecl.lower_eq_ok h
  rfl

/-! ## All functions -/

namespace Bytecode

/-- A blueprint with a new name is put behind the others. -/
theorem blueprints_insert_of_not_contains {bc : Bytecode} {b : Blueprint}
    (h : ¬bc.contains b.name = true) : (bc.insert b).blueprints = bc.blueprints ++ [b] := by
  unfold insert
  split
  · next hslot => exact absurd (Option.isSome_of_eq_some hslot) h
  · rfl

end Bytecode

namespace Program

/-- Lowering functions one after the other puts their blueprints behind those that are there.
Induction on the functions. -/
theorem lowerAll_forall₂ {table : TypeTable} {types : List TypeDecl} {fs : List FunDecl}
    {bc bc' : Bytecode} (h : lowerAll table types bc fs = (bc', none)) :
    ∃ bs, bc'.blueprints = bc.blueprints ++ bs ∧
      List.Forall₂ (fun f b => FunDecl.lower f table types = .ok b) fs bs := by
  induction fs generalizing bc with
  | nil =>
    simp only [lowerAll, Prod.mk.injEq, and_true] at h
    subst h
    exact ⟨[], by simp, .nil⟩
  | cons f rest ih =>
    rw [lowerAll] at h
    split at h
    · simp at h
    · next hnew =>
      split at h
      · simp at h
      · next b hb =>
        obtain ⟨bs, hbs, hall⟩ := ih h
        -- The name was not taken, so that no blueprint is replaced.
        have hname : ¬bc.contains b.name = true := by
          rw [FunDecl.name_of_lower hb]
          exact hnew
        refine ⟨b :: bs, ?_, .cons hb hall⟩
        rw [hbs, Bytecode.blueprints_insert_of_not_contains hname, List.append_assoc]
        rfl

/-- A compiled program has the blueprints of its functions, in their order. -/
theorem lower_forall₂ {p : Program} {table : TypeTable} {bc : Bytecode}
    (h : p.lower table = .ok bc) :
    List.Forall₂ (fun f b => FunDecl.lower f table p.types = .ok b) p.functions bc.blueprints := by
  unfold lower at h
  split at h
  · next bc' hall =>
    cases h
    obtain ⟨bs, hbs, hforall⟩ := lowerAll_forall₂ hall
    rw [hbs]
    -- Nothing stands before the blueprints of the first function.
    simpa [Bytecode.empty] using hforall
  · cases h

/-- The blueprints have the names of the functions, in their order. -/
theorem names_of_lower {p : Program} {table : TypeTable} {bc : Bytecode}
    (h : p.lower table = .ok bc) :
    bc.blueprints.map Blueprint.name = p.functions.map FunDecl.name := by
  have hall := lower_forall₂ h
  symm
  rw [← List.forall₂_eq_eq_eq, List.forall₂_map_left_iff, List.forall₂_map_right_iff]
  exact hall.imp fun _ _ hb => (FunDecl.name_of_lower hb).symm

/-- No two functions of a compiled program share their name. -/
theorem nodup_of_lower {p : Program} {table : TypeTable} {bc : Bytecode}
    (h : p.lower table = .ok bc) : (p.functions.map FunDecl.name).Nodup := by
  rw [← names_of_lower h]
  exact bc.distinct

/-- Looking up a name finds the blueprint of the function of that name, if there is one. -/
theorem get?_of_lower {p : Program} {table : TypeTable} {bc : Bytecode}
    (h : p.lower table = .ok bc) (name : String) :
    match p.function? name with
    | none => bc.get? name = none
    | some f => ∃ b, f.lower table p.types = .ok b ∧ bc.get? name = some b := by
  have hall := lower_forall₂ h
  rw [Bytecode.get?_eq_find?]
  unfold function?
  generalize p.functions = fs at hall
  generalize bc.blueprints = bs at hall
  -- Functions and blueprints are searched side by side.
  induction hall with
  | nil => simp
  | @cons f b fs bs hb _ ih =>
    have hname : b.name = f.name := FunDecl.name_of_lower hb
    rw [List.find?_cons, List.find?_cons, hname]
    cases hcmp : f.name == name with
    | true => exact ⟨b, hb, rfl⟩
    | false => exact ih

/-- The function of a name, where no two functions share one. -/
theorem function?_eq_some {p : Program} (hnodup : (p.functions.map FunDecl.name).Nodup)
    {name : String} {f : FunDecl} :
    p.function? name = some f ↔ f ∈ p.functions ∧ f.name = name := by
  unfold function?
  constructor
  · intro h
    exact ⟨List.mem_of_find?_eq_some h, by simpa using List.find?_some h⟩
  · rintro ⟨hmem, rfl⟩
    cases hfound : p.functions.find? fun g => g.name == f.name with
    | none => exact absurd (List.find?_eq_none.1 hfound f hmem) (by simp)
    | some g =>
      have hname : g.name = f.name := by simpa using List.find?_some hfound
      rw [List.inj_on_of_nodup_map hnodup (List.mem_of_find?_eq_some hfound) hmem hname]

/-- The functions of a compiled program have been lowered. -/
theorem lower_of_mem {p : Program} {table : TypeTable} {bc : Bytecode}
    (h : p.lower table = .ok bc) {f : FunDecl} (hf : f ∈ p.functions) :
    ∃ b, f.lower table p.types = .ok b ∧ bc.get? f.name = some b := by
  have hget := get?_of_lower h f.name
  rw [(function?_eq_some (nodup_of_lower h)).2 ⟨hf, rfl⟩] at hget
  exact hget

/-- Every blueprint of a compiled program is that of one of its functions. -/
theorem exists_of_mem_blueprints {p : Program} {table : TypeTable} {bc : Bytecode}
    (h : p.lower table = .ok bc) {b : Blueprint} (hb : b ∈ bc.blueprints) :
    ∃ f ∈ p.functions, f.lower table p.types = .ok b := by
  have hall := lower_forall₂ h
  generalize p.functions = fs at hall
  generalize bc.blueprints = bs at hall hb
  induction hall with
  | nil => cases hb
  | @cons f b' fs bs hfirst _ ih =>
    rcases List.mem_cons.1 hb with rfl | hrest
    · exact ⟨f, List.mem_cons_self, hfirst⟩
    · obtain ⟨g, hg, hlower⟩ := ih hrest
      exact ⟨g, List.mem_cons_of_mem _ hg, hlower⟩

end Program

/-- What is looked up by name is one of the blueprints and has this name. -/
theorem Bytecode.mem_of_get? {bc : Bytecode} {name : String} {b : Blueprint}
    (h : bc.get? name = some b) : b ∈ bc.blueprints ∧ b.name = name :=
  Bytecode.get?_eq_some_iff.1 h

/-! ## The table of a program -/

namespace TypeTable

/-- The fields of a record type are those of its last declaration in the program. -/
theorem fields?_ofProgram (p : Program) (type : String) :
    (ofProgram p).fields? type = (p.record? type).map fun d => d.fields.map VarDecl.name := by
  unfold fields? ofProgram Program.record?
  rw [Dictionary.get?_ofList, ← List.map_reverse, List.find?_map]
  simp only [Option.map_map]
  congr 1
  funext d
  simp [fieldInfo, Function.comp_def]

/-- In a program without two functions of one name, a function has as many parameters as it
declares. -/
theorem arity?_ofProgram {p : Program} (hnodup : (p.functions.map FunDecl.name).Nodup)
    (name : String) :
    (ofProgram p).arity? name = (p.function? name).map fun f => f.params.length := by
  -- The table keeps the last declaration of a name, which is the only one.
  have hlast : (p.functions.reverse.find? fun f => f.name == name) = p.function? name := by
    unfold Program.function?
    generalize p.functions = fs at hnodup
    induction fs with
    | nil => rfl
    | cons f rest ih =>
      rw [List.map_cons, List.nodup_cons] at hnodup
      rw [List.reverse_cons, List.find?_append, ih hnodup.2, List.find?_cons, List.find?_cons]
      by_cases h : f.name = name
      · have hrest : (rest.find? fun f => f.name == name) = none := by
          rw [List.find?_eq_none]
          intro g hg heq
          apply hnodup.1
          rw [h, ← eq_of_beq heq]
          exact List.mem_map_of_mem hg
        simp [h, hrest]
      · have hcmp : (f.name == name) = false := by simpa using h
        simp [hcmp]
  unfold arity? ofProgram
  rw [Dictionary.get?_ofList, ← List.map_reverse, List.find?_map, ← hlast]
  simp only [Option.map_map]
  congr 1
  funext f
  simp

end TypeTable

end RecordMachine
