import Mathlib.Data.List.Perm.Subperm
import RecordMachine.Proofs.Acceptance.Expression

/-!
# How deep constructions nest

Lowering gives up where more constructions stand inside one another than the program has record
types. Here it is shown that this bound is exact. A larger bound never changes an answer that is not
about the bound (`constructCode_approximates`), and where as many constructions stand inside one
another as there are types, some type is constructed inside itself, in the same scope and with
everything before it lowered in the same way, so that no bound would do (`endless_of_depthLimit`).

The second part follows the construction that a computation gives up at. Whatever stood before it
has been lowered, with any bound that sufficed for it to the same code; so wherever this
construction meets its bound, the whole computation does (`Hinges`).
-/

namespace RecordMachine

/-! ## Answers about the bound -/

section Answers

variable {α β : Type} {x x' : Except LoweringError α}

/-- The computation has met its bound on nested constructions. -/
def Endless (x : Except LoweringError α) : Prop :=
  ∃ type function, x = .error (.endlessRecord type function)

/-- The computation has met its bound, or it ends as the other one does. -/
def Approximates (x x' : Except LoweringError α) : Prop := Endless x ∨ x = x'

/-- A computation with a result has not met its bound. -/
theorem not_endless_ok {a : α} : ¬Endless (.ok a : Except LoweringError α) := by
  rintro ⟨type, function, ⟨⟩⟩

/-- A computation in two stages meets its bound in one of them. -/
theorem endless_bind {f : α → Except LoweringError β} :
    Endless (x >>= f) ↔ Endless x ∨ ∃ a, x = .ok a ∧ Endless (f a) := by
  unfold Endless
  simp only [bind_eq_error]
  constructor
  · rintro ⟨type, function, hx | ⟨a, ha, hf⟩⟩
    · exact .inl ⟨type, function, hx⟩
    · exact .inr ⟨a, ha, type, function, hf⟩
  · rintro (⟨type, function, hx⟩ | ⟨a, ha, type, function, hf⟩)
    · exact ⟨type, function, .inl hx⟩
    · exact ⟨type, function, .inr ⟨a, ha, hf⟩⟩

/-- Two stages that do not meet the bound do not meet it together. -/
theorem not_endless_bind {f : α → Except LoweringError β} (hx : ¬Endless x)
    (hf : ∀ a, x = .ok a → ¬Endless (f a)) : ¬Endless (x >>= f) := by
  rw [endless_bind]
  rintro (hend | ⟨a, ha, hend⟩)
  · exact hx hend
  · exact hf a ha hend

namespace Approximates

theorem refl (x : Except LoweringError α) : Approximates x x := .inr rfl

theorem trans {x'' : Except LoweringError α} (h : Approximates x x') (h' : Approximates x' x'') :
    Approximates x x'' := by
  rcases h with hend | rfl
  · exact .inl hend
  · exact h'

/-- If each stage of a computation meets its bound or ends as with the larger one, the whole
does. -/
theorem bind {f f' : α → Except LoweringError β} (h : Approximates x x')
    (hf : ∀ a, Approximates (f a) (f' a)) : Approximates (x >>= f) (x' >>= f') := by
  rcases h with hend | rfl
  · exact .inl (endless_bind.2 (.inl hend))
  · cases x with
    | error e => exact .inr rfl
    | ok a => exact hf a

/-- A larger bound is met only where the smaller one is. -/
theorem endless (h : Approximates x x') (hend : Endless x') : Endless x := by
  rcases h with hx | rfl
  · exact hx
  · exact hend

end Approximates

end Answers

/-! ## Names are looked up without a bound -/

namespace Context

variable (ctx : Context)

/-- A variable is found or unknown. -/
theorem not_endless_slot (scope : Scope) (name : String) : ¬Endless (ctx.slot scope name) := by
  unfold slot Endless
  split <;> simp

/-- Fields are read one after the other, without a construction. -/
theorem not_endless_pathCode (scope : Scope) (names : List String) :
    ¬Endless (ctx.pathCode scope names) := by
  cases names with
  | nil =>
    unfold pathCode Endless
    simp
  | cons base fields =>
    exact not_endless_bind (ctx.not_endless_slot scope base) fun _ _ => not_endless_ok

/-- A callee is a builtin, a function or unknown, and takes as many values as it takes. -/
theorem not_endless_calleeCode (name : String) (count : Nat) :
    ¬Endless (ctx.calleeCode name count) := by
  have harity : ∀ expected, ¬Endless (checkArity name expected count) := by
    intro expected
    unfold checkArity Endless
    split <;> simp
  unfold calleeCode
  split
  · exact not_endless_bind (harity _) fun _ _ => not_endless_ok
  · split
    · unfold Endless
      simp
    · exact not_endless_bind (harity _) fun _ _ => not_endless_ok

/-- A record type has its fields or is unknown. -/
theorem not_endless_layout (type : String) : ¬Endless (ctx.layout type) := by
  unfold layout Endless
  split <;> simp

end Context

/-! ## A larger bound -/

section Bounds

variable {ctx : Context} {scope : Scope}

mutual

/-- If a larger bound changes only answers about the bound in constructions, then in expressions
too. -/
theorem Expr.codeWith_approximates {construct construct' : String → Except LoweringError Code}
    (h : ∀ type, Approximates (construct type) (construct' type)) : ∀ e : Expr,
      Approximates (e.codeWith ctx scope construct) (e.codeWith ctx scope construct')
  | .literal l => .refl _
  | .path names => .refl _
  | .new type => h type
  | .call name args => by
    rw [Expr.codeWith, Expr.codeWith]
    exact .bind (.refl _) fun _ => .bind (Expr.codeAllWith_approximates h args) fun _ => .refl _
  | .unary op e => by
    rw [Expr.codeWith, Expr.codeWith]
    exact .bind (Expr.codeWith_approximates h e) fun _ => .refl _
  | .binary op left right => by
    rw [Expr.codeWith, Expr.codeWith]
    exact .bind (Expr.codeWith_approximates h left) fun _ =>
      .bind (Expr.codeWith_approximates h right) fun _ => .refl _
  | .group e => by
    rw [Expr.codeWith, Expr.codeWith]
    exact Expr.codeWith_approximates h e

theorem Expr.codeAllWith_approximates {construct construct' : String → Except LoweringError Code}
    (h : ∀ type, Approximates (construct type) (construct' type)) : ∀ es : List Expr,
      Approximates (Expr.codeAllWith ctx scope construct es)
        (Expr.codeAllWith ctx scope construct' es)
  | [] => .refl _
  | e :: rest => by
    rw [Expr.codeAllWith, Expr.codeAllWith]
    exact .bind (Expr.codeWith_approximates h e) fun _ =>
      .bind (Expr.codeAllWith_approximates h rest) fun _ => .refl _

end

theorem fieldsCode_approximates {lower lower' : Expr → Except LoweringError Code}
    (h : ∀ e, Approximates (lower e) (lower' e)) (fields : List VarDecl) :
    Approximates (fieldsCode lower fields) (fieldsCode lower' fields) := by
  induction fields with
  | nil => exact .refl _
  | cons field rest ih => exact .bind (h field.init) fun _ => .bind ih fun _ => .refl _

/-- Allowing one more construction inside another changes only answers about the bound. Induction on
the bound: with none allowed the answer is about the bound, if the type is known. -/
theorem constructCode_approximates_succ (depth : Nat) (type : String) :
    Approximates (constructCode ctx scope depth type)
      (constructCode ctx scope (depth + 1) type) := by
  induction depth generalizing type with
  | zero =>
    rw [constructCode, constructCode]
    refine .bind (.refl _) fun layout => .inl ⟨type, ctx.function, rfl⟩
  | succ depth ih =>
    rw [constructCode, constructCode]
    exact .bind (.refl _) fun layout =>
      .bind (fieldsCode_approximates (fun e => e.codeWith_approximates ih) layout.2)
        fun _ => .refl _

/-- A larger bound changes only answers about the bound. -/
theorem constructCode_approximates {depth depth' : Nat} (hle : depth ≤ depth') (type : String) :
    Approximates (constructCode ctx scope depth type) (constructCode ctx scope depth' type) := by
  induction hle with
  | refl => exact .refl _
  | step _ ih => exact ih.trans (constructCode_approximates_succ _ type)

/-! ## The construction that meets the bound -/

/-- The answers of a computation for all bounds: a larger one changes only answers about the
bound. -/
def Directed {α : Type} (x : Nat → Except LoweringError α) : Prop :=
  ∀ ⦃d d' : Nat⦄, d ≤ d' → Approximates (x d) (x d')

/-- A computation without constructions. -/
theorem directed_const {α : Type} (x : Except LoweringError α) : Directed fun _ => x :=
  fun _ _ _ => .refl x

/-- Two bounds that both suffice give the same answer. -/
theorem Directed.eq_of_ok {α : Type} {x : Nat → Except LoweringError α} (h : Directed x)
    {d d' : Nat} {a : α} (ha : x d = .ok a) (hend : ¬Endless (x d')) : x d' = .ok a := by
  rcases Nat.le_total d d' with hle | hle
  · rcases h hle with hmet | heq
    · rw [ha] at hmet
      exact absurd hmet not_endless_ok
    · rw [← heq, ha]
  · rcases h hle with hmet | heq
    · exact absurd hmet hend
    · rw [heq, ha]

/-- If a computation meets the bound `depth`, then because of one of the constructions in it:
wherever that one meets its bound, the computation does. -/
def Hinges {α : Type} (ctx : Context) (scope : Scope) (depth : Nat) (types : List String)
    (x : Nat → Except LoweringError α) : Prop :=
  Endless (x depth) → ∃ type ∈ types, Endless (constructCode ctx scope depth type) ∧
    ∀ d, Endless (constructCode ctx scope d type) → Endless (x d)

namespace Hinges

variable {α β : Type} {depth : Nat} {types types' : List String} {x : Nat → Except LoweringError α}
  {f : Nat → α → Except LoweringError β}

/-- A computation that does not meet the bound. -/
theorem of_not_endless (h : ¬Endless (x depth)) : Hinges ctx scope depth types x :=
  fun hend => absurd hend h

/-- Two stages: the construction stands in the first one, or in the second one, which is reached
with every bound that suffices for the first. -/
theorem bind (hdirected : Directed x) (hx : Hinges ctx scope depth types x)
    (hf : ∀ a, Hinges ctx scope depth types' fun d => f d a) :
    Hinges ctx scope depth (types ++ types') fun d => x d >>= f d := by
  intro hend
  rcases endless_bind.1 hend with hend | ⟨a, ha, hend⟩
  · obtain ⟨type, hmem, hmet, hall⟩ := hx hend
    exact ⟨type, List.mem_append_left _ hmem, hmet,
      fun d hd => endless_bind.2 (.inl (hall d hd))⟩
  · obtain ⟨type, hmem, hmet, hall⟩ := hf a hend
    refine ⟨type, List.mem_append_right _ hmem, hmet, fun d hd => ?_⟩
    -- With another bound the first stage has met it, or has given the same.
    by_cases hfirst : Endless (x d)
    · exact endless_bind.2 (.inl hfirst)
    · exact endless_bind.2 (.inr ⟨a, hdirected.eq_of_ok ha hfirst, hall d hd⟩)

/-- A last stage without constructions. -/
theorem map {f : α → Except LoweringError β} (hdirected : Directed x)
    (hx : Hinges ctx scope depth types x) (hf : ∀ a, ¬Endless (f a)) :
    Hinges ctx scope depth types fun d => x d >>= f := by
  have h : Hinges ctx scope depth (types ++ []) fun d => x d >>= f :=
    hx.bind hdirected fun a => of_not_endless (hf a)
  rwa [List.append_nil] at h

/-- A first stage without constructions. -/
theorem lead {x : Except LoweringError α} (hx : ¬Endless x)
    (hf : ∀ a, Hinges ctx scope depth types fun d => f d a) :
    Hinges ctx scope depth types fun d => x >>= f d := by
  have h : Hinges ctx scope depth [] fun _ => x := of_not_endless hx
  exact h.bind (directed_const x) hf

end Hinges

theorem directed_codeWith (e : Expr) :
    Directed fun d => e.codeWith ctx scope (constructCode ctx scope d) :=
  fun _ _ hle => e.codeWith_approximates fun type => constructCode_approximates hle type

theorem directed_codeAllWith (es : List Expr) :
    Directed fun d => Expr.codeAllWith ctx scope (constructCode ctx scope d) es :=
  fun _ _ hle => Expr.codeAllWith_approximates (fun type => constructCode_approximates hle type) es

theorem directed_fieldsCode (fields : List VarDecl) : Directed fun d =>
    fieldsCode (Expr.codeWith ctx scope (constructCode ctx scope d)) fields :=
  fun _ _ hle => fieldsCode_approximates (fun e => directed_codeWith e hle) fields

mutual

/-- An expression meets the bound because of one of the constructions that stand in it. -/
theorem Expr.codeWith_hinges (depth : Nat) : ∀ e : Expr, Hinges ctx scope depth e.newTypes
    fun d => e.codeWith ctx scope (constructCode ctx scope d)
  | .literal l => .of_not_endless not_endless_ok
  | .path names => .of_not_endless (ctx.not_endless_pathCode scope names)
  | .new type => fun hend => ⟨type, List.mem_singleton_self type, hend, fun _ hd => hd⟩
  | .call name args => by
    simp only [Expr.codeWith]
    -- The callee is looked up without constructing anything.
    exact .lead (ctx.not_endless_calleeCode name args.length) fun _ =>
      .map (directed_codeAllWith args) (Expr.codeAllWith_hinges depth args) fun _ => not_endless_ok
  | .unary op e => by
    simp only [Expr.codeWith]
    exact .map (directed_codeWith e) (Expr.codeWith_hinges depth e) fun _ => not_endless_ok
  | .binary op left right => by
    simp only [Expr.codeWith]
    exact .bind (directed_codeWith left) (Expr.codeWith_hinges depth left) fun _ =>
      .map (directed_codeWith right) (Expr.codeWith_hinges depth right) fun _ => not_endless_ok
  | .group e => by
    simp only [Expr.codeWith]
    exact Expr.codeWith_hinges depth e

/-- Arguments meet the bound because of a construction in one of them. -/
theorem Expr.codeAllWith_hinges (depth : Nat) : ∀ es : List Expr,
    Hinges ctx scope depth (Expr.newTypesAll es)
      fun d => Expr.codeAllWith ctx scope (constructCode ctx scope d) es
  | [] => .of_not_endless not_endless_ok
  | e :: rest => by
    simp only [Expr.codeAllWith]
    exact .bind (directed_codeWith e) (Expr.codeWith_hinges depth e) fun _ =>
      .map (directed_codeAllWith rest) (Expr.codeAllWith_hinges depth rest) fun _ => not_endless_ok

end

/-- Initial values meet the bound because of a construction in one of them. -/
theorem fieldsCode_hinges (depth : Nat) (fields : List VarDecl) :
    Hinges ctx scope depth (Expr.newTypesAll (fields.map VarDecl.init))
      fun d => fieldsCode (Expr.codeWith ctx scope (constructCode ctx scope d)) fields := by
  induction fields with
  | nil => exact .of_not_endless not_endless_ok
  | cons field rest ih =>
    simp only [fieldsCode]
    exact .bind (directed_codeWith field.init) (Expr.codeWith_hinges depth field.init) fun _ =>
      .map (directed_fieldsCode rest) ih fun _ => not_endless_ok

/-! ## Types that are constructed inside themselves -/

/-- Constructing an object of a type constructs one of another type, and meets its bound wherever
that construction does. -/
def RestsOn (ctx : Context) (scope : Scope) (type inner : String) : Prop :=
  Constructs ctx.table ctx.types type inner ∧
    ∀ d, Endless (constructCode ctx scope d inner) → Endless (constructCode ctx scope (d + 1) type)

/-- A declared type cannot be constructed with no construction at all. -/
theorem endless_zero {type : String} {decl : TypeDecl}
    (h : Declares ctx.table ctx.types type decl) : Endless (constructCode ctx scope 0 type) := by
  obtain ⟨names, hlayout⟩ := Context.layout_of_declares h
  rw [constructCode, hlayout]
  exact ⟨type, ctx.function, rfl⟩

/-- Only the construction of a declared type meets its bound. -/
theorem declares_of_endless {depth : Nat} {type : String}
    (h : Endless (constructCode ctx scope depth type)) :
    ∃ decl, Declares ctx.table ctx.types type decl := by
  -- Without a declaration the answer is that the type is unknown.
  by_contra hnone
  have hlayout := Context.layout_of_not_declares (not_exists.1 hnone)
  cases depth with
  | zero =>
    rw [constructCode, hlayout] at h
    obtain ⟨type', function, ⟨⟩⟩ := h
  | succ depth =>
    rw [constructCode, hlayout] at h
    obtain ⟨type', function, ⟨⟩⟩ := h

/-- A construction that meets its bound rests on one that stands in its initial values and meets the
bound which is smaller by one. -/
theorem exists_restsOn {depth : Nat} {type : String}
    (h : Endless (constructCode ctx scope (depth + 1) type)) :
    ∃ inner, RestsOn ctx scope type inner ∧ Endless (constructCode ctx scope depth inner) := by
  obtain ⟨decl, hdecl⟩ := declares_of_endless h
  obtain ⟨names, hlayout⟩ := Context.layout_of_declares hdecl
  -- Once the fields are known, only their initial values can meet the bound.
  have hcode : ∀ d, Endless (constructCode ctx scope (d + 1) type) ↔
      Endless (fieldsCode (Expr.codeWith ctx scope (constructCode ctx scope d)) decl.fields) := by
    intro d
    rw [constructCode, hlayout]
    show Endless (fieldsCode _ decl.fields >>= fun inits => .ok (.alloc names :: inits)) ↔ _
    rw [endless_bind]
    refine ⟨?_, .inl⟩
    rintro (hend | ⟨_, _, hok⟩)
    · exact hend
    · exact absurd hok not_endless_ok
  obtain ⟨inner, hmem, hmet, hall⟩ := fieldsCode_hinges depth decl.fields ((hcode depth).1 h)
  exact ⟨inner, ⟨⟨decl, hdecl, hmem⟩, fun d hd => (hcode d).2 (hall d hd)⟩, hmet⟩

/-- A declared type is one of those of the program. -/
theorem Declares.mem_names {table : TypeTable} {types : List TypeDecl} {type : String}
    {decl : TypeDecl} (h : Declares table types type decl) : type ∈ types.map TypeDecl.name := by
  have hname : decl.name = type := by simpa using List.find?_some h.2
  rw [← hname]
  exact List.mem_map_of_mem (List.mem_reverse.1 (List.mem_of_find?_eq_some h.2))

/-- Following the constructions that meet the bound, some type comes up again, if the bound and the
types that came up before, `seen`, are as many as there are types. -/
theorem exists_cycle (depth : Nat) (type : String) (seen : List String) (hnodup : seen.Nodup)
    (hseen : ∀ t ∈ seen, t ∈ ctx.types.map TypeDecl.name ∧
      Relation.TransGen (RestsOn ctx scope) t type)
    (hroom : ctx.types.length ≤ depth + seen.length)
    (hend : Endless (constructCode ctx scope depth type)) :
    ∃ t, Relation.ReflTransGen (RestsOn ctx scope) type t ∧
      Relation.TransGen (RestsOn ctx scope) t t := by
  induction depth generalizing type seen with
  | zero =>
    by_cases hmem : type ∈ seen
    · exact ⟨type, .refl, (hseen type hmem).2⟩
    · -- One more type than there are.
      exfalso
      obtain ⟨decl, hdecl⟩ := declares_of_endless hend
      have hsub : type :: seen ⊆ ctx.types.map TypeDecl.name :=
        List.cons_subset.2 ⟨hdecl.mem_names, fun t ht => (hseen t ht).1⟩
      have hle := ((List.nodup_cons.2 ⟨hmem, hnodup⟩).subperm hsub).length_le
      rw [List.length_cons, List.length_map] at hle
      omega
  | succ depth ih =>
    by_cases hmem : type ∈ seen
    · exact ⟨type, .refl, (hseen type hmem).2⟩
    · obtain ⟨decl, hdecl⟩ := declares_of_endless hend
      -- A new type: it is added to those that came up, and the bound has become smaller by one.
      obtain ⟨inner, hrests, hmet⟩ := exists_restsOn hend
      have hseen' : ∀ t ∈ type :: seen, t ∈ ctx.types.map TypeDecl.name ∧
          Relation.TransGen (RestsOn ctx scope) t inner := by
        refine List.forall_mem_cons.2 ⟨⟨hdecl.mem_names, .single hrests⟩, ?_⟩
        exact fun t ht => ⟨(hseen t ht).1, (hseen t ht).2.tail hrests⟩
      obtain ⟨t, hreach, hcycle⟩ := ih inner (type :: seen) (List.nodup_cons.2 ⟨hmem, hnodup⟩)
        hseen' (by rw [List.length_cons]; omega) hmet
      exact ⟨t, hreach.head hrests, hcycle⟩

/-- Meeting the bound is handed on along a chain of constructions, with a bound that is larger by
its length. -/
theorem endless_of_transGen {type inner : String}
    (h : Relation.TransGen (RestsOn ctx scope) type inner) : ∃ k, 0 < k ∧
      ∀ d, Endless (constructCode ctx scope d inner) →
        Endless (constructCode ctx scope (d + k) type) := by
  induction h using Relation.TransGen.head_induction_on with
  | single h => exact ⟨1, Nat.one_pos, h.2⟩
  | head h _ ih =>
    obtain ⟨k, _, hk⟩ := ih
    exact ⟨k + 1, Nat.succ_pos k, fun d hd => h.2 (d + k) (hk d hd)⟩

/-- A type that is constructed inside itself meets every bound. -/
theorem endless_of_cycle {type : String} (h : Relation.TransGen (RestsOn ctx scope) type type)
    (depth : Nat) : Endless (constructCode ctx scope depth type) := by
  obtain ⟨_, ⟨⟨decl, hdecl, _⟩, _⟩, _⟩ := Relation.TransGen.head'_iff.1 h
  obtain ⟨k, hpos, hround⟩ := endless_of_transGen h
  induction depth using Nat.strongRecOn with
  | ind depth ih =>
    rcases Nat.lt_or_ge depth k with hlt | hge
    · -- Less than one round: the bound is met also at the end of the round.
      have hend := hround 0 (endless_zero hdecl)
      rw [Nat.zero_add] at hend
      exact (constructCode_approximates (Nat.le_of_lt hlt) type).endless hend
    · -- One round back the bound is met by induction, and the round hands this on.
      have hend := hround (depth - k) (ih (depth - k) (by omega))
      rwa [Nat.sub_add_cancel hge] at hend

/-- The bound of lowering is exact: a construction that meets it meets every bound, since a type is
constructed inside itself. -/
theorem endless_of_depthLimit {type : String}
    (h : Endless (constructCode ctx scope ctx.depthLimit type)) :
    (∃ t, Relation.ReflTransGen (Constructs ctx.table ctx.types) type t ∧
      Relation.TransGen (Constructs ctx.table ctx.types) t t) ∧
    ∀ depth, Endless (constructCode ctx scope depth type) := by
  obtain ⟨t, hreach, hcycle⟩ := exists_cycle ctx.depthLimit type [] List.nodup_nil
    (List.forall_mem_nil _) (Nat.le_refl _) h
  -- Every construction that rests on one of the cycle meets every bound with it.
  refine ⟨⟨t, Relation.ReflTransGen.mono (fun _ _ h => h.1) _ _ hreach,
    Relation.TransGen.mono (fun _ _ h => h.1) _ _ hcycle⟩, ?_⟩
  clear h
  induction hreach using Relation.ReflTransGen.head_induction_on with
  | refl => exact endless_of_cycle hcycle
  | head hrests _ ih =>
    intro depth
    obtain ⟨⟨decl, hdecl, _⟩, hhinge⟩ := hrests
    cases depth with
    | zero => exact endless_zero hdecl
    | succ depth => exact hhinge depth (ih depth)

end Bounds

end RecordMachine
