import Mathlib.Data.Finset.Card
import Mathlib.Data.Finset.Filter
import RecordMachine.Proofs.Acceptance.Rules
import RecordMachine.Proofs.Lowering.Shape

/-!
# Lowering decides well-formedness of expressions

A computation *decides* a condition if it succeeds exactly where the condition holds and fails with
exactly the errors of a given kind (`Decides`). Stages put after each other decide that both
conditions hold, and the first error is that of the first stage, or that of the second one where the
first stage succeeds (`Decides.bind`); the defects of `Expr.FirstDefect` have this form.

Lowering an expression decides whether it is well-formed (`Expr.code_decides`), if no record type
constructs itself. Then constructions do not stand inside one another more often than there are
types, since each one inside has fewer types left to reach (`card_reachable_lt`), and the bound of
lowering is never met.
-/

namespace RecordMachine

/-! ## Computations that decide -/

/-- A computation succeeds exactly if `good` holds, and fails with `e` exactly if `bad e` holds. -/
structure Decides {ε α : Type} (x : Except ε α) (good : Prop) (bad : ε → Prop) : Prop where
  ok_iff : (∃ a, x = .ok a) ↔ good
  error_iff : ∀ e, x = .error e ↔ bad e

namespace Decides

variable {ε α β : Type} {x : Except ε α} {f : α → Except ε β} {good good' : Prop}
  {bad bad' : ε → Prop}

/-- `.ok a` decides the condition that always holds, and no error is a bad one. -/
theorem ok (a : α) : Decides (.ok a : Except ε α) True fun _ => False where
  ok_iff := ⟨fun _ => trivial, fun _ => ⟨a, rfl⟩⟩
  error_iff := fun _ => ⟨nofun, False.elim⟩

/-- `.error e` decides the condition that never holds, and `e` is the only bad error. -/
theorem error (e : ε) : Decides (.error e : Except ε α) False fun e' => e' = e where
  ok_iff := ⟨nofun, False.elim⟩
  error_iff := fun _ => ⟨fun h => (Except.error.inj h).symm, fun h => by rw [h]⟩

/-- The condition and the kind of error may be replaced by equivalent ones. Every case of
`Expr.codeWith_decides` ends with this, from the conjunctions of the stages to the constructors of
`Expr.WellFormed` and `Expr.FirstDefect`. -/
theorem congr (h : Decides x good bad) (hgood : good ↔ good') (hbad : ∀ e, bad e ↔ bad' e) :
    Decides x good' bad' where
  ok_iff := h.ok_iff.trans hgood
  error_iff := fun e => (h.error_iff e).trans (hbad e)

/-- Two stages: the second one is reached if the first one succeeds. -/
theorem bind (h : Decides x good bad) (hf : ∀ a, x = .ok a → Decides (f a) good' bad') :
    Decides (x >>= f) (good ∧ good') fun e => bad e ∨ good ∧ bad' e := by
  cases x with
  | error e₀ =>
    -- The first stage failed: its condition does not hold, so the second one contributes nothing.
    have hgood : ¬good := fun hg => by
      obtain ⟨a, ha⟩ := h.ok_iff.2 hg
      cases ha
    show Decides (.error e₀) _ _
    refine (Decides.error e₀).congr ?_ ?_
    · simp [hgood]
    · intro e
      rw [← h.error_iff e, Except.error.injEq]
      simp [hgood, eq_comm]
  | ok a =>
    -- The first stage succeeded: no error is its own, so every error is one of the second stage.
    have hgood : good := h.ok_iff.1 ⟨a, rfl⟩
    have hbad : ∀ e, ¬bad e := fun e he => by
      have herror := (h.error_iff e).2 he
      cases herror
    show Decides (f a) _ _
    refine (hf a rfl).congr ?_ ?_
    · simp [hgood]
    · intro e
      simp [hgood, hbad e]

/-- A stage that always succeeds decides nothing. -/
theorem map (h : Decides x good bad) (hf : ∀ a, x = .ok a → ∃ b, f a = .ok b) :
    Decides (x >>= f) good bad := by
  have hnothing : ∀ a, x = .ok a → Decides (f a) True fun _ => False := by
    intro a ha
    obtain ⟨b, hb⟩ := hf a ha
    rw [hb]
    exact .ok b
  refine (h.bind hnothing).congr (by simp) ?_
  intro e
  simp

end Decides

section FirstIn

variable {α ε : Type} {good : α → Prop} {bad : α → ε → Prop}

theorem firstIn_nil {e : ε} : FirstIn good bad [] e ↔ False :=
  ⟨nofun, False.elim⟩

/-- `FirstIn` has the form that `Decides.bind` gives to two stages: the head is bad, or it is good
and the defect is in the rest. -/
theorem firstIn_cons {x : α} {rest : List α} {e : ε} :
    FirstIn good bad (x :: rest) e ↔ bad x e ∨ good x ∧ FirstIn good bad rest e := by
  constructor
  · intro h
    cases h with
    | head hx => exact .inl hx
    | tail hx hrest => exact .inr ⟨hx, hrest⟩
  · rintro (hx | ⟨hx, hrest⟩)
    · exact .head hx
    · exact .tail hx hrest

end FirstIn

/-! ## Names -/

/-- The names of the visible variables are those of the list. -/
def Scope.Shows (scope : Scope) (visible : List String) : Prop :=
  ∀ name, (scope.resolve? name).isSome ↔ name ∈ visible

namespace Context

variable {ctx : Context} {scope : Scope} {visible : List String}

/-- Looking a variable up decides whether its name is visible. -/
theorem slot_decides (hshows : scope.Shows visible) (name : String) :
    Decides (ctx.slot scope name) (name ∈ visible)
      fun e => name ∉ visible ∧ e = .unknownVariable name ctx.function := by
  have hname := hshows name
  unfold Context.slot
  cases hfound : scope.resolve? name with
  | some slot =>
    have hmem : name ∈ visible := hname.1 (by rw [hfound]; rfl)
    exact (Decides.ok slot).congr (by simp [hmem]) (fun e => by simp [hmem])
  | none =>
    have hmem : name ∉ visible := by
      rw [← hname, hfound]
      exact Bool.false_ne_true
    exact (Decides.error _).congr (by simp [hmem]) (fun e => by simp [hmem])

/-- `checkArity` decides whether the two numbers of arguments are the same. -/
theorem checkArity_decides (name : String) (expected found : Nat) :
    Decides (checkArity name expected found) (expected = found)
      fun e => expected ≠ found ∧ e = .arityMismatch name expected found := by
  unfold checkArity
  split
  · next h => exact (Decides.ok ()).congr (by simp [h]) (fun e => by simp [h])
  · next h => exact (Decides.error _).congr (by simp [h]) (fun e => by simp [h])

/-- Looking a callee up decides whether there is one that takes so many arguments. A built-in
function is found before one of the table, as in `Context.callee?`. -/
theorem calleeCode_decides (ctx : Context) (name : String) (count : Nat) :
    Decides (ctx.calleeCode name count) (ctx.callee? name = some count)
      fun e => ctx.callee? name = none ∧ e = .unknownFunction name ctx.function ∨
        ∃ expected, ctx.callee? name = some expected ∧ expected ≠ count ∧
          e = .arityMismatch name expected count := by
  unfold calleeCode callee?
  cases Builtin.find? name with
  | some builtin =>
    refine ((checkArity_decides name builtin.arity count).map fun _ _ => ⟨_, rfl⟩).congr ?_ ?_
    · simp
    · intro e
      simp
  | none =>
    cases ctx.table.arity? name with
    | none => exact (Decides.error _).congr (by simp) (fun e => by simp)
    | some arity =>
      refine ((checkArity_decides name arity count).map fun _ _ => ⟨_, rfl⟩).congr ?_ ?_
      · simp
      · intro e
        simp

/-- A declared record type has a layout, with the fields of its last declaration. -/
theorem layout_of_declares {type : String} {decl : TypeDecl}
    (h : Declares ctx.table ctx.types type decl) :
    ∃ names, ctx.layout type = .ok (names, decl.fields) := by
  obtain ⟨htable, hdecl⟩ := h
  obtain ⟨names, hnames⟩ := Option.isSome_iff_exists.1 htable
  refine ⟨names, ?_⟩
  unfold layout decl?
  rw [hnames, hdecl]

/-- A type that the table does not know or the program does not declare has no layout. Both lookups
of `Context.layout` report the same error. -/
theorem layout_of_not_declares {type : String}
    (h : ∀ decl, ¬Declares ctx.table ctx.types type decl) :
    ctx.layout type = .error (.unknownType type ctx.function) := by
  unfold layout
  split
  · next names decl hnames hdecl =>
    exact absurd ⟨by rw [hnames]; rfl, hdecl⟩ (h decl)
  · rfl

end Context

/-! ## Expressions -/

section Expressions

variable {ctx : Context} {scope : Scope} {visible : List String}

/-- A computation decides whether an expression is well-formed. -/
abbrev Expr.Decided (ctx : Context) (visible : List String) (e : Expr)
    (x : Except LoweringError Code) : Prop :=
  Decides x (e.WellFormed ctx visible) (e.FirstDefect ctx visible)

/-- What an expression of a list constructs is constructed by the list. Induction on the list. -/
theorem Expr.mem_newTypesAll {es : List Expr} {e : Expr} (he : e ∈ es) {type : String}
    (htype : type ∈ e.newTypes) : type ∈ Expr.newTypesAll es := by
  induction es with
  | nil => cases he
  | cons first rest ih =>
    rw [Expr.newTypesAll, List.mem_append]
    rcases List.mem_cons.1 he with rfl | hrest
    · exact .inl htype
    · exact .inr (ih hrest)

mutual

/-- Lowering an expression decides whether it is well-formed, if constructing the objects in it
does. -/
theorem Expr.codeWith_decides {construct : String → Except LoweringError Code}
    (hshows : scope.Shows visible) : ∀ (e : Expr),
      (∀ type ∈ e.newTypes, (Expr.new type).Decided ctx visible (construct type)) →
        e.Decided ctx visible (e.codeWith ctx scope construct)
  | .literal l, _ => by
    rw [Expr.codeWith]
    refine (Decides.ok _).congr ?_ ?_
    · exact ⟨fun _ => .literal l, fun _ => trivial⟩
    · exact fun e => ⟨False.elim, nofun⟩
  | .path [], _ => by
    rw [Expr.codeWith, Context.pathCode]
    refine (Decides.error _).congr ⟨False.elim, nofun⟩ ?_
    intro e
    constructor
    · rintro rfl
      exact .emptyPath
    · intro h
      cases h
      rfl
  | .path (base :: fields), _ => by
    rw [Expr.codeWith, Context.pathCode]
    refine ((Context.slot_decides hshows base).map fun _ _ => ⟨_, rfl⟩).congr ?_ ?_
    · constructor
      · exact .path
      · intro h
        cases h with
        | path hbase => exact hbase
    · intro e
      constructor
      · rintro ⟨hbase, rfl⟩
        exact .unbound hbase
      · intro h
        cases h with
        | unbound hbase => exact ⟨hbase, rfl⟩
  | .new type, hnew => by
    rw [Expr.codeWith]
    exact hnew type (List.mem_singleton_self type)
  | .call name args, hnew => by
    rw [Expr.codeWith]
    -- The callee and the number of arguments come first; the arguments are lowered only then.
    have hargs := Expr.codeAllWith_decides hshows args hnew
    refine ((ctx.calleeCode_decides name args.length).bind fun _ _ =>
      hargs.map fun _ _ => ⟨_, rfl⟩).congr ?_ ?_
    · constructor
      · rintro ⟨hcallee, hall⟩
        exact .call hcallee hall
      · intro h
        cases h with
        | call hcallee hall => exact ⟨hcallee, hall⟩
    · intro e
      constructor
      · rintro ((⟨hcallee, rfl⟩ | ⟨expected, hcallee, hne, rfl⟩) | ⟨hcallee, hfirst⟩)
        · exact .callee hcallee
        · exact .arity hcallee hne
        · exact .argument hcallee hfirst
      · intro h
        cases h with
        | callee hcallee => exact .inl (.inl ⟨hcallee, rfl⟩)
        | arity hcallee hne => exact .inl (.inr ⟨_, hcallee, hne, rfl⟩)
        | argument hcallee hfirst => exact .inr ⟨hcallee, hfirst⟩
  | .unary op operand, hnew => by
    rw [Expr.codeWith]
    refine ((Expr.codeWith_decides hshows operand hnew).map fun _ _ => ⟨_, rfl⟩).congr ?_ ?_
    · constructor
      · exact .unary
      · intro h
        cases h with
        | unary he => exact he
    · intro e
      constructor
      · exact .unary
      · intro h
        cases h with
        | unary he => exact he
  | .binary op left right, hnew => by
    rw [Expr.codeWith]
    have hleft := Expr.codeWith_decides hshows left
      fun type htype => hnew type (List.mem_append_left _ htype)
    have hright := Expr.codeWith_decides hshows right
      fun type htype => hnew type (List.mem_append_right _ htype)
    refine (hleft.bind fun _ _ => hright.map fun _ _ => ⟨_, rfl⟩).congr ?_ ?_
    · constructor
      · rintro ⟨hl, hr⟩
        exact .binary hl hr
      · intro h
        cases h with
        | binary hl hr => exact ⟨hl, hr⟩
    · intro e
      constructor
      · rintro (hl | ⟨hl, hr⟩)
        · exact .left hl
        · exact .right hl hr
      · intro h
        cases h with
        | left hl => exact .inl hl
        | right hl hr => exact .inr ⟨hl, hr⟩
  | .group inner, hnew => by
    rw [Expr.codeWith]
    refine (Expr.codeWith_decides hshows inner hnew).congr ?_ ?_
    · constructor
      · exact .group
      · intro h
        cases h with
        | group he => exact he
    · intro e
      constructor
      · exact .group
      · intro h
        cases h with
        | group he => exact he

/-- The arguments of a call are lowered from left to right, so that the first bad one decides. -/
theorem Expr.codeAllWith_decides {construct : String → Except LoweringError Code}
    (hshows : scope.Shows visible) : ∀ (es : List Expr),
      (∀ type ∈ Expr.newTypesAll es, (Expr.new type).Decided ctx visible (construct type)) →
        Decides (Expr.codeAllWith ctx scope construct es) (∀ e ∈ es, e.WellFormed ctx visible)
          (FirstIn (Expr.WellFormed ctx visible) (Expr.FirstDefect ctx visible) es)
  | [], _ => by
    rw [Expr.codeAllWith]
    exact (Decides.ok _).congr (by simp) fun e => firstIn_nil.symm
  | first :: rest, hnew => by
    rw [Expr.codeAllWith]
    have hfirst := Expr.codeWith_decides hshows first
      fun type htype => hnew type (List.mem_append_left _ htype)
    have hrest := Expr.codeAllWith_decides hshows rest
      fun type htype => hnew type (List.mem_append_right _ htype)
    refine (hfirst.bind fun _ _ => hrest.map fun _ _ => ⟨_, rfl⟩).congr ?_ ?_
    · exact List.forall_mem_cons.symm
    · exact fun e => firstIn_cons.symm

end

/-- The initial values of the fields are lowered in the order of the declaration, so that the first
bad one decides. Induction on the fields. -/
theorem fieldsCode_decides {lower : Expr → Except LoweringError Code} (fields : List VarDecl)
    (hlower : ∀ e ∈ fields.map VarDecl.init, e.Decided ctx visible (lower e)) :
    Decides (fieldsCode lower fields)
      (∀ e ∈ fields.map VarDecl.init, e.WellFormed ctx visible)
      (FirstIn (Expr.WellFormed ctx visible) (Expr.FirstDefect ctx visible)
        (fields.map VarDecl.init)) := by
  induction fields with
  | nil => exact (Decides.ok _).congr (by simp) fun e => firstIn_nil.symm
  | cons field rest ih =>
    rw [fieldsCode]
    rw [List.map_cons] at hlower ⊢
    have hfirst := hlower _ List.mem_cons_self
    have hrest := ih fun e he => hlower e (List.mem_cons_of_mem _ he)
    refine (hfirst.bind fun _ _ => hrest.map fun _ _ => ⟨_, rfl⟩).congr ?_ ?_
    · exact List.forall_mem_cons.symm
    · exact fun e => firstIn_cons.symm

/-! ## Record types that construct each other -/

open Classical in
/-- The names of the record types that constructing an object of a type leads to, itself
included. -/
noncomputable def reachable (table : TypeTable) (types : List TypeDecl) (type : String) :
    Finset String :=
  (types.map TypeDecl.name).toFinset.filter (Relation.ReflTransGen (Constructs table types) type)

variable {table : TypeTable} {types : List TypeDecl} {type inner : String}

theorem mem_reachable : inner ∈ reachable table types type ↔
    inner ∈ types.map TypeDecl.name ∧
      Relation.ReflTransGen (Constructs table types) type inner := by
  classical
  unfold reachable
  rw [Finset.mem_filter, List.mem_toFinset]

/-- No type reaches more types than there are declarations. -/
theorem card_reachable_le : (reachable table types type).card ≤ types.length := by
  classical
  calc (reachable table types type).card
      ≤ (types.map TypeDecl.name).toFinset.card := Finset.card_filter_le _ _
    _ ≤ (types.map TypeDecl.name).length := List.toFinset_card_le _
    _ = types.length := List.length_map _

theorem self_mem_reachable {decl : TypeDecl} (h : Declares table types type decl) :
    type ∈ reachable table types type := by
  have hfound := List.find?_some h.2
  have hname : decl.name = type := by simpa using hfound
  have hmem : decl ∈ types := List.mem_reverse.1 (List.mem_of_find?_eq_some h.2)
  rw [mem_reachable]
  refine ⟨?_, .refl⟩
  rw [← hname]
  exact List.mem_map_of_mem hmem

/-- A construction inside another one has fewer types left to reach. -/
theorem card_reachable_lt (hacyclic : Acyclic table types) (h : Constructs table types type inner) :
    (reachable table types inner).card < (reachable table types type).card := by
  have ⟨decl, hdecl, _⟩ := h
  apply Finset.card_lt_card
  refine Finset.ssubset_iff_subset_ne.2 ⟨?_, ?_⟩
  · intro other hother
    rw [mem_reachable] at hother ⊢
    exact ⟨hother.1, hother.2.head h⟩
  · -- The type itself is reached from itself, but not from what it constructs.
    intro heq
    have hself := self_mem_reachable hdecl
    rw [← heq, mem_reachable] at hself
    exact hacyclic type (Relation.TransGen.head' h hself.2)

/-- A name has only one declaration that counts, the last one. -/
theorem Declares.unique {decl decl' : TypeDecl} (h : Declares table types type decl)
    (h' : Declares table types type decl') : decl = decl' :=
  Option.some.inj (h.2.symm.trans h'.2)

/-- Constructing an object of an undeclared type decides its well-formedness by failing: there is no
other defect that `Expr.new` could have. -/
theorem decided_of_not_declares (h : ∀ decl, ¬Declares ctx.table ctx.types type decl) :
    (Expr.new type).Decided ctx visible (.error (.unknownType type ctx.function)) := by
  refine (Decides.error _).congr ?_ ?_
  · constructor
    · exact False.elim
    · intro hwf
      cases hwf with
      | new hdecl _ => exact h _ hdecl
  · intro e
    constructor
    · rintro rfl
      exact .undeclared h
    · intro hfirst
      cases hfirst with
      | undeclared _ => rfl
      | init hdecl _ => exact absurd hdecl (h _)

/-- Constructing an object decides whether it is well-formed, if the bound on nested constructions
leaves room for the types that are reached. -/
theorem constructCode_decides (hacyclic : Acyclic ctx.table ctx.types)
    (hshows : scope.Shows visible) (depth : Nat) :
    ∀ type, (reachable ctx.table ctx.types type).card ≤ depth →
      (Expr.new type).Decided ctx visible (constructCode ctx scope depth type) := by
  -- On the bound: every construction inside another one reaches fewer types, so the bound never
  -- decides, and where it is used up the type is not declared.
  induction depth with
  | zero =>
    intro type hroom
    have hnone : ∀ decl, ¬Declares ctx.table ctx.types type decl := by
      intro decl hdecl
      -- A declared type reaches at least itself, but no type may be reached any more.
      have hpos := Finset.card_pos.2 ⟨type, self_mem_reachable hdecl⟩
      omega
    rw [constructCode, Context.layout_of_not_declares hnone]
    exact decided_of_not_declares hnone
  | succ depth ih =>
    intro type hroom
    rw [constructCode]
    by_cases hdeclared : ∃ decl, Declares ctx.table ctx.types type decl
    · obtain ⟨decl, hdecl⟩ := hdeclared
      obtain ⟨names, hlayout⟩ := Context.layout_of_declares hdecl
      -- What a field constructs reaches fewer types, so the hypothesis applies to it.
      have hlower : ∀ e ∈ decl.fields.map VarDecl.init, e.Decided ctx visible
          (e.codeWith ctx scope (constructCode ctx scope depth)) := by
        intro e he
        refine Expr.codeWith_decides hshows e ?_
        intro inner hinner
        have hless := card_reachable_lt hacyclic ⟨decl, hdecl, Expr.mem_newTypesAll he hinner⟩
        exact ih inner (by omega)
      rw [hlayout]
      refine ((fieldsCode_decides decl.fields hlower).map fun _ _ => ⟨_, rfl⟩).congr ?_ ?_
      · constructor
        · exact .new hdecl
        · intro hwf
          cases hwf with
          | new hdecl' hinits =>
            -- The declaration of the derivation is the one that was found.
            rw [hdecl.unique hdecl']
            exact hinits
      · intro e
        constructor
        · exact .init hdecl
        · intro hfirst
          cases hfirst with
          | undeclared hnone => exact absurd hdecl (hnone decl)
          | init hdecl' hinits =>
            rw [hdecl.unique hdecl']
            exact hinits
    · have hnone : ∀ decl, ¬Declares ctx.table ctx.types type decl := not_exists.1 hdeclared
      rw [Context.layout_of_not_declares hnone]
      exact decided_of_not_declares hnone

/-- Lowering an expression decides whether it is well-formed. -/
theorem Expr.code_decides (hacyclic : Acyclic ctx.table ctx.types) (hshows : scope.Shows visible)
    (e : Expr) : e.Decided ctx visible (e.code ctx scope) :=
  Expr.codeWith_decides hshows e fun type _ =>
    constructCode_decides hacyclic hshows ctx.depthLimit type card_reachable_le

end Expressions

end RecordMachine
