import RecordMachine.Proofs.Generator.Depth

/-!
# Generation is free of history

A generator that is given programs one after the other makes of each of them what a new generator
would (`Generator.serve_iff`), also after programs that were refused in the middle of a block.
Everything in its hand is set anew before it is read: the record types for every program, the
blueprint and the variables for every function.

Functions are generated independently of each other. Putting them in another order changes the order
of the blueprints, and nothing else (`Program.lower_perm`).
-/

namespace RecordMachine

/-! ## Programs one after the other -/

namespace Generator

variable {table : TypeTable}

/-- The first program is generated, then the others with the generator that it leaves. -/
theorem serve_cons_eq_some {depth : Nat} {p : Program} {rest : List Program} {g g' : Generator}
    {results : List (Except LoweringError Bytecode)} :
    serve table depth (p :: rest) g = some (results, g') ↔
      ∃ result mid others, p.emit table depth g = some (result, mid) ∧
        serve table depth rest mid = some (others, g') ∧ results = result :: others := by
  rw [serve]
  constructor
  · intro h
    obtain ⟨⟨result, mid⟩, hfirst, h⟩ := Option.bind_eq_some_iff.1 h
    obtain ⟨⟨others, last⟩, hrest, h⟩ := Option.bind_eq_some_iff.1 h
    cases h
    exact ⟨result, mid, others, hfirst, hrest, rfl⟩
  · rintro ⟨result, mid, others, hfirst, hrest, rfl⟩
    exact Option.bind_eq_some_iff.2 ⟨_, hfirst, Option.bind_eq_some_iff.2 ⟨_, hrest, rfl⟩⟩

/-- What a generator makes of a program does not depend on what it has in hand. -/
theorem Emits.any {g : Generator} {p : Program} {result : Except LoweringError Bytecode}
    (h : g.Emits table p result) (g' : Generator) : g'.Emits table p result :=
  emits_iff.2 (emits_iff.1 h)

/-- What a generator makes of each program, a new one makes of it too. Induction on the programs,
with any generator at the start. -/
theorem forall₂_of_serve {depth : Nat} {history : List Program} {g g' : Generator}
    {results : List (Except LoweringError Bytecode)}
    (h : serve table depth history g = some (results, g')) :
    List.Forall₂ (fun p result => Emits table {} p result) history results := by
  induction history generalizing g results with
  | nil =>
    cases h
    exact .nil
  | cons p rest ih =>
    obtain ⟨result, mid, others, hfirst, hrest, rfl⟩ := serve_cons_eq_some.1 h
    have hemits : g.Emits table p result := ⟨depth, mid, hfirst⟩
    exact .cons (hemits.any {}) (ih hrest)

/-- A depth that suffices for lowering suffices for the generator. -/
theorem serve_of_forall₂ {depth : Nat} {history : List Program}
    {results : List (Except LoweringError Bytecode)}
    (h : List.Forall₂ (fun p result => Emits table {} p result) history results)
    (hdepth : ∀ p ∈ history, p.types.length ≤ depth) (g : Generator) :
    ∃ g', serve table depth history g = some (results, g') := by
  induction h generalizing g with
  | nil => exact ⟨g, rfl⟩
  | @cons p result rest others hfirst _ ih =>
    obtain ⟨hp, hrest⟩ := List.forall_mem_cons.1 hdepth
    obtain ⟨rfl, hend⟩ := emits_iff.1 hfirst
    obtain ⟨mid, hmid⟩ := (p.emit_follows table hp g).exists_outcome hend
    obtain ⟨g', hg'⟩ := ih hrest mid
    exact ⟨g', serve_cons_eq_some.2 ⟨_, mid, others, hmid, hg', rfl⟩⟩

/-- One depth suffices for all programs of a history. -/
theorem exists_depth (history : List Program) :
    ∃ depth, ∀ p ∈ history, p.types.length ≤ depth := by
  induction history with
  | nil => exact ⟨0, List.forall_mem_nil _⟩
  | cons p rest ih =>
    obtain ⟨depth, hdepth⟩ := ih
    refine ⟨p.types.length + depth, List.forall_mem_cons.2 ⟨Nat.le_add_right _ _, ?_⟩⟩
    exact fun q hq => Nat.le_trans (hdepth q hq) (Nat.le_add_left _ _)

/-- Whatever a generator has in hand, it makes of programs one after the other what new generators
make of them. -/
theorem serve_iff {history : List Program} {g : Generator}
    {results : List (Except LoweringError Bytecode)} :
    (∃ depth g', serve table depth history g = some (results, g')) ↔
      List.Forall₂ (fun p result => Emits table {} p result) history results := by
  constructor
  · rintro ⟨depth, g', h⟩
    exact forall₂_of_serve h
  · intro h
    obtain ⟨depth, hdepth⟩ := exists_depth history
    exact ⟨depth, serve_of_forall₂ h hdepth g⟩

end Generator

/-! ## Functions in another order -/

namespace Program

variable {table : TypeTable} {types : List TypeDecl}

/-- Functions with new and different names are lowered if each of them is. -/
theorem lowerAll_of_forall (fs : List FunDecl) (bc : Bytecode)
    (hall : ∀ f ∈ fs, ∃ b, f.lower table types = .ok b) (hnodup : (fs.map FunDecl.name).Nodup)
    (hnew : ∀ f ∈ fs, ¬bc.contains f.name = true) :
    ∃ bc', outcome (lowerAll table types bc fs) = .ok bc' := by
  induction fs generalizing bc with
  | nil => exact ⟨bc, rfl⟩
  | cons f rest ih =>
    obtain ⟨⟨b, hb⟩, hrest⟩ := List.forall_mem_cons.1 hall
    obtain ⟨hf, hothers⟩ := List.forall_mem_cons.1 hnew
    rw [List.map_cons, List.nodup_cons] at hnodup
    have hname := FunDecl.name_of_lower hb
    -- The names that follow differ from the one that was inserted.
    have hnew' : ∀ g ∈ rest, ¬(bc.insert b).contains g.name = true := by
      intro g hg hin
      rcases (Bytecode.contains_insert (by rwa [hname]) g.name).1 hin with heq | hin
      · exact hnodup.1 (hname ▸ heq ▸ List.mem_map_of_mem hg)
      · exact hothers g hg hin
    obtain ⟨bc', hbc'⟩ := ih (bc.insert b) hrest hnodup.2 hnew'
    refine ⟨bc', ?_⟩
    rw [outcome_lowerAll_cons, if_neg hf, hb]
    exact hbc'

/-- With its functions in another order a program is lowered to the same blueprints, in that
order. -/
theorem lower_perm {p q : Program} {b : Bytecode} (hp : p.lower table = .ok b)
    (htypes : q.types = p.types) (hperm : q.functions.Perm p.functions) :
    ∃ c, q.lower table = .ok c ∧ (∀ name, c.get? name = b.get? name) ∧
      c.names = q.functions.map FunDecl.name := by
  have hnodup := nodup_of_lower hp
  have hnodup' : (q.functions.map FunDecl.name).Nodup :=
    (hperm.map FunDecl.name).nodup_iff.2 hnodup
  -- Every function is lowered in the other program, to the same blueprint.
  have hall : ∀ f ∈ q.functions, ∃ b', f.lower table q.types = .ok b' := by
    intro f hf
    obtain ⟨b', hb', _⟩ := lower_of_mem hp (hperm.mem_iff.1 hf)
    exact ⟨b', htypes ▸ hb'⟩
  have hempty : ∀ f ∈ q.functions, ¬Bytecode.empty.contains f.name = true := by
    rintro f _ ⟨⟩
  obtain ⟨c, hc⟩ := lowerAll_of_forall q.functions .empty hall hnodup' hempty
  rw [← lower_eq_outcome] at hc
  refine ⟨c, hc, fun name => ?_, names_of_lower hc⟩
  -- A name belongs to the same function in both orders, since no two functions share one.
  have hfunction : q.function? name = p.function? name := by
    ext f
    rw [function?_eq_some hnodup', function?_eq_some hnodup, hperm.mem_iff]
  have hget := get?_of_lower hp name
  have hget' := get?_of_lower hc name
  rw [hfunction, htypes] at hget'
  cases hf : p.function? name with
  | none =>
    rw [hf] at hget hget'
    exact hget'.trans hget.symm
  | some f =>
    rw [hf] at hget hget'
    obtain ⟨b₁, hb₁, hget⟩ := hget
    obtain ⟨b₂, hb₂, hget'⟩ := hget'
    rw [hb₁] at hb₂
    cases hb₂
    exact hget'.trans hget.symm

end Program

/-! ## Modularity -/

/-- A generator makes of programs that it is given one after the other what new generators make of
them, which is what lowering computes; and with its functions in another order a program is compiled
to the same blueprints, in that order. -/
theorem Generator.serve_modular (table : TypeTable) :
    (∀ (history : List Program) (g : Generator) (results : List (Except LoweringError Bytecode)),
      (∃ depth g', serve table depth history g = some (results, g')) ↔
        List.Forall₂ (fun p result => Emits table {} p result) history results) ∧
    (∀ (history : List Program) (g g' : Generator) (depth : Nat)
      (results : List (Except LoweringError Bytecode)),
      serve table depth history g = some (results, g') → results = history.map (·.lower table)) ∧
    ∀ (p q : Program) (b : Bytecode), p.lower table = .ok b → q.types = p.types →
      q.functions.Perm p.functions →
        ∃ c, q.lower table = .ok c ∧ (∀ name, c.get? name = b.get? name) ∧
          c.names = q.functions.map FunDecl.name := by
  refine ⟨fun _ _ _ => serve_iff, ?_,
    fun _ _ _ hp htypes hperm => Program.lower_perm hp htypes hperm⟩
  intro history g g' depth results h
  -- An outcome with any depth is what lowering computes.
  have hall := (forall₂_of_serve h).imp fun p result hemits => (emits_iff.1 hemits).1
  rw [← List.forall₂_eq_eq_eq, List.forall₂_map_right_iff]
  exact hall.flip

/-- A function that uses a variable inside a block in which it is not visible. -/
def Program.unbound : Program where
  types := []
  functions := [⟨"f", "void", [⟨"x", "int"⟩], [.whileLoop (.path ["x"])
    [.declare ⟨"y", none, .path ["x"]⟩, .assign ["z"] (.path ["y"])]]⟩]

/-- Two functions, one of which calls the other. -/
def Program.caller : Program where
  types := []
  functions := [⟨"f", "void", [⟨"x", "int"⟩], [.declare ⟨"y", none, .path ["x"]⟩]⟩,
    .main [.call "f" [.literal (.int 1)]]]

/-- The same functions in the other order. -/
def Program.callee : Program :=
  { Program.caller with functions := Program.caller.functions.reverse }

/-- The generator refuses the first program in the middle of a block, and then generates the
others. -/
theorem Generator.serve_modular_caller :
    (∃ depth g', serve (.ofProgram .caller) depth [.unbound, .caller, .callee] {} =
      some ([.error (.unknownVariable "z" "f"), Program.caller.lower (.ofProgram .caller),
        Program.callee.lower (.ofProgram .caller)], g')) ∧
    ∃ c, Program.callee.lower (.ofProgram .caller) = .ok c ∧ c.names = ["main", "f"] := by
  obtain ⟨hserve, _, hperm⟩ := serve_modular (.ofProgram .caller)
  refine ⟨(hserve _ _ _).2 (.cons ?_ (.cons ?_ (.cons ?_ .nil))), ?_⟩
  · exact emits_iff.2 ⟨rfl, by rintro ⟨_, _, ⟨⟩⟩⟩
  · exact emits_iff.2 ⟨rfl, by rintro ⟨_, _, ⟨⟩⟩⟩
  · exact emits_iff.2 ⟨rfl, by rintro ⟨_, _, ⟨⟩⟩⟩
  · obtain ⟨c, hc, _, hnames⟩ := hperm .caller .callee _ rfl rfl (List.reverse_perm _)
    exact ⟨c, hc, hnames⟩

end RecordMachine
