import Mathlib.Order.WellFounded
import RecordMachine.Proofs.Generator.Depth
import RecordMachine.Proofs.Tree.Traversal

/-!
# When generation ends

Whether generation ends depends on which record types the initial values of a type construct,
`Initialises`; only the last declaration of a type counts, and the table is not asked.

* If no infinite chain of such types starts from a type that is constructed in a function, then
  generation ends. Where lowering meets its bound, it is for a construction in some function
  (`Program.lower_blames`), and that one leads into a cycle.
* A type that leads back to itself is never generated, at any depth, where nothing is wrong with the
  initial values of the types that it leads to: nothing else can stop the generator then
  (`constructCode_relays`).
-/

namespace RecordMachine

/-! ## Types that lead to each other -/

/-- An initial value in the last declaration of a type constructs an object of another type. -/
def Initialises (types : List TypeDecl) (type inner : String) : Prop :=
  ∃ decl, (types.reverse.find? fun d => d.name == type) = some decl ∧
    inner ∈ Expr.newTypesAll (decl.fields.map VarDecl.init)

/-- What the table admits is only part of what the declarations say. -/
theorem Constructs.initialises {table : TypeTable} {types : List TypeDecl} {type inner : String}
    (h : Constructs table types type inner) : Initialises types type inner := by
  obtain ⟨decl, ⟨_, hdecl⟩, hinner⟩ := h
  exact ⟨decl, hdecl, hinner⟩

/-- From what leads into a cycle an infinite chain starts. -/
theorem exists_chain_of_cycle {α : Type} {r : α → α → Prop} {a t : α}
    (hreach : Relation.ReflTransGen r a t) (hcycle : Relation.TransGen r t t) :
    ∃ chain : Nat → α, chain 0 = a ∧ ∀ n, r (chain n) (chain (n + 1)) := by
  have hacc : ¬Acc (fun y x => r x y) a := by
    intro hacc
    induction hacc with
    | intro a _ ih =>
      -- The first step on the way to the cycle, or else the first one along it.
      rcases hreach.cases_head with rfl | ⟨next, hstep, hrest⟩
      · obtain ⟨next, hstep, hrest⟩ := Relation.TransGen.head'_iff.1 hcycle
        exact ih next hstep hrest
      · exact ih next hstep hrest
  exact not_acc_iff_exists_descending_chain.1 hacc

/-! ## The construction at which lowering meets its bound -/

mutual

def Stmt.newTypes : Stmt → List String
  | .declare decl => decl.init.newTypes
  | .assign _ value => value.newTypes
  | .ifChain chain => Chain.newTypes chain
  | .whileLoop cond body => cond.newTypes ++ Stmt.newTypesIn body
  | .forLoop _ start _ stop body => start.newTypes ++ (stop.newTypes ++ Stmt.newTypesIn body)
  | .ret none => []
  | .ret (some value) => value.newTypes
  | .delete _ => []
  | .call _ args => Expr.newTypesAll args

def Stmt.newTypesIn : List Stmt → List String
  | [] => []
  | s :: rest => Stmt.newTypes s ++ Stmt.newTypesIn rest

def Chain.newTypes : Chain → List String
  | .done => []
  | .otherwise body => Stmt.newTypesIn body
  | .branch cond body rest => cond.newTypes ++ (Stmt.newTypesIn body ++ Chain.newTypes rest)

end

def Program.newTypes (p : Program) : List String :=
  p.functions.flatMap fun f => Stmt.newTypesIn f.body

/-- If a computation meets the bound of lowering, then for a construction of one of these types. -/
def Blames {α : Type} (table : TypeTable) (decls : List TypeDecl) (types : List String)
    (x : Except LoweringError α) : Prop :=
  Endless x → ∃ type ∈ types, ∃ function scope,
    Endless (constructCode ⟨table, decls, function⟩ scope decls.length type)

namespace Blames

variable {α β : Type} {table : TypeTable} {decls : List TypeDecl} {types types' : List String}
  {x : Except LoweringError α} {f : α → Except LoweringError β}

/-- Blame may be shared by more types. -/
theorem mono (h : Blames table decls types x) (hsub : types ⊆ types') :
    Blames table decls types' x := by
  intro hend
  obtain ⟨type, hmem, hmet⟩ := h hend
  exact ⟨type, hsub hmem, hmet⟩

/-- In two stages the bound is met in the first one, or in the second one. -/
theorem bind (hx : Blames table decls types x) (hf : ∀ a, Blames table decls types' (f a)) :
    Blames table decls (types ++ types') (x >>= f) := by
  intro hend
  rcases endless_bind.1 hend with hend | ⟨a, _, hend⟩
  · exact hx.mono (List.subset_append_left _ _) hend
  · exact (hf a).mono (List.subset_append_right _ _) hend

/-- A computation that does not meet the bound blames nothing. -/
theorem of_not_endless (h : ¬Endless x) : Blames table decls types x := fun hend => absurd hend h

/-- A last stage that cannot fail. -/
theorem map (hx : Blames table decls types x) (hf : ∀ a, ¬Endless (f a)) :
    Blames table decls types (x >>= f) := by
  intro hend
  rcases endless_bind.1 hend with hend | ⟨a, _, hend⟩
  · exact hx hend
  · exact absurd hend (hf a)

end Blames

section Blames

variable {table : TypeTable} {decls : List TypeDecl} {function : String}

/-- An expression meets the bound at one of the constructions in it. -/
theorem Expr.code_blames (scope : Scope) (e : Expr) :
    Blames table decls e.newTypes (e.code ⟨table, decls, function⟩ scope) := by
  intro hend
  obtain ⟨type, hmem, hmet, _⟩ := Expr.codeWith_hinges decls.length e hend
  exact ⟨type, hmem, function, scope, hmet⟩

mutual

/-- A statement meets the bound at a construction of one of its expressions. Induction on the
statement; looking names up never meets it. -/
theorem Stmt.code_blames : ∀ (s : Stmt) (base : Nat) (scope : Scope),
    Blames table decls s.newTypes (Stmt.code ⟨table, decls, function⟩ base scope s)
  | .declare decl, base, scope => by
    rw [Stmt.code]
    exact (decl.init.code_blames scope).map fun _ => not_endless_ok
  | .assign [] value, base, scope => by
    rw [Stmt.code]
    exact .of_not_endless (by rintro ⟨_, _, ⟨⟩⟩)
  | .assign (name :: fields) value, base, scope => by
    rw [Stmt.code]
    exact (value.code_blames scope).map fun _ =>
      not_endless_bind (Context.not_endless_slot _ scope name) fun _ _ => not_endless_ok
  | .ifChain chain, base, scope => by
    rw [Stmt.code]
    exact (Chain.code_blames chain base scope).map fun _ => not_endless_ok
  | .whileLoop cond body, base, scope => by
    rw [Stmt.code]
    exact (cond.code_blames scope).bind fun _ =>
      (Stmt.sequenceCode_blames body _ _).map fun _ => not_endless_ok
  | .forLoop var start direction stop body, base, scope => by
    rw [Stmt.code_forLoop]
    -- The counter takes a slot between the two bounds, which constructs nothing.
    refine (start.code_blames _).bind fun first => ?_
    obtain ⟨slot, inner⟩ := scope.enter.counter var
    exact (stop.code_blames inner).bind fun _ =>
      (Stmt.sequenceCode_blames body _ _).map fun _ => not_endless_ok
  | .ret none, base, scope => .of_not_endless not_endless_ok
  | .ret (some value), base, scope => by
    rw [Stmt.code]
    exact (value.code_blames scope).map fun _ => not_endless_ok
  | .delete name, base, scope => by
    rw [Stmt.code]
    exact .of_not_endless
      (not_endless_bind (Context.not_endless_slot _ scope name) fun _ _ => not_endless_ok)
  | .call name args, base, scope => by
    rw [Stmt.code]
    exact ((Expr.call name args).code_blames scope).map fun _ => not_endless_ok

theorem Stmt.sequenceCode_blames : ∀ (body : List Stmt) (base : Nat) (scope : Scope),
    Blames table decls (Stmt.newTypesIn body)
      (Stmt.sequenceCode ⟨table, decls, function⟩ base scope body)
  | [], base, scope => .of_not_endless not_endless_ok
  | s :: rest, base, scope => by
    rw [Stmt.sequenceCode]
    exact (Stmt.code_blames s base scope).bind fun _ =>
      (Stmt.sequenceCode_blames rest _ _).map fun _ => not_endless_ok

theorem Chain.code_blames : ∀ (chain : Chain) (base : Nat) (scope : Scope),
    Blames table decls chain.newTypes (Chain.code ⟨table, decls, function⟩ base scope chain)
  | .done, base, scope => .of_not_endless not_endless_ok
  | .otherwise body, base, scope => by
    rw [Chain.code]
    exact (Stmt.sequenceCode_blames body _ _).map fun _ => not_endless_ok
  | .branch cond body rest, base, scope => by
    rw [Chain.code_branch]
    exact (cond.code_blames scope).bind fun _ => (Stmt.sequenceCode_blames body _ _).bind fun _ =>
      (Chain.code_blames rest _ _).map fun _ => not_endless_ok

end

/-- A program meets the bound in one of its functions. -/
theorem Program.lowerAll_blames (fs : List FunDecl) (bc : Bytecode) :
    Blames table decls (fs.flatMap fun f => Stmt.newTypesIn f.body)
      (outcome (lowerAll table decls bc fs)) := by
  induction fs generalizing bc with
  | nil => exact .of_not_endless not_endless_ok
  | cons f rest ih =>
    rw [outcome_lowerAll_cons, List.flatMap_cons]
    split
    · exact .of_not_endless (by rintro ⟨_, _, ⟨⟩⟩)
    · have hbody : Blames table decls (Stmt.newTypesIn f.body) (f.lower table decls) :=
        (Stmt.sequenceCode_blames f.body _ _).map fun _ => not_endless_ok
      exact hbody.bind fun b => ih (bc.insert b)

/-- Where lowering meets its bound, some function constructs a type that leads into a cycle. -/
theorem Program.lower_blames {p : Program} (h : Endless (p.lower table)) :
    ∃ type ∈ p.newTypes, ∃ t, Relation.ReflTransGen (Initialises p.types) type t ∧
      Relation.TransGen (Initialises p.types) t t := by
  rw [p.lower_eq_outcome] at h
  obtain ⟨type, hmem, function, scope, hmet⟩ := lowerAll_blames p.functions .empty h
  obtain ⟨⟨t, hreach, hcycle⟩, _⟩ := endless_of_depthLimit hmet
  exact ⟨type, hmem, t, Relation.ReflTransGen.mono (fun _ _ h => h.initialises) _ _ hreach,
    Relation.TransGen.mono (fun _ _ h => h.initialises) _ _ hcycle⟩

end Blames

/-! ## Types without a defect -/

/-- Whether the name that an expression uses itself means something: a path starts with a visible
variable, and a call has as many arguments as its callee has parameters. -/
def Expr.resolves (ctx : Context) (scope : Scope) : Expr → Bool
  | .path [] => false
  | .path (base :: _) => (scope.resolve? base).isSome
  | .call name args => ctx.callee? name = some args.length
  | _ => true

/-- Nothing is wrong with a record type: it is known to both the table and the program, and all
names in its initial values mean something. -/
def Faultless (ctx : Context) (scope : Scope) (type : String) : Prop :=
  ∃ decl, Declares ctx.table ctx.types type decl ∧
    Expr.allIn (Expr.resolves ctx scope) (decl.fields.map VarDecl.init) = true

/-- A computation succeeds or meets its bound, and it meets its bound if one of the constructions in
it does. -/
structure Relays {α : Type} (construct : String → Except LoweringError Code) (types : List String)
    (x : Except LoweringError α) : Prop where
  settled : (∃ a, x = .ok a) ∨ Endless x
  endless : ∀ type ∈ types, Endless (construct type) → Endless x

namespace Relays

variable {α β : Type} {construct : String → Except LoweringError Code} {types types' : List String}
  {x : Except LoweringError α} {f : α → Except LoweringError β}

theorem ok (a : α) : Relays construct [] (.ok a) where
  settled := .inl ⟨a, rfl⟩
  endless := List.forall_mem_nil _

/-- A first stage that meets the bound ends both. If it succeeds, none of its constructions met the
bound, and the second stage decides. -/
theorem bind (hx : Relays construct types x) (hf : ∀ a, Relays construct types' (f a)) :
    Relays construct (types ++ types') (x >>= f) where
  settled := by
    rcases hx.settled with ⟨a, rfl⟩ | hend
    · exact (hf a).settled
    · exact .inr (endless_bind.2 (.inl hend))
  endless := by
    intro type hmem hmet
    rcases hx.settled with ⟨a, rfl⟩ | hend
    · rcases List.mem_append.1 hmem with hmem | hmem
      · exact absurd (hx.endless type hmem hmet) not_endless_ok
      · exact (hf a).endless type hmem hmet
    · exact endless_bind.2 (.inl hend)

/-- A last stage that succeeds changes nothing. -/
theorem map (hx : Relays construct types x) (hf : ∀ a, ∃ b, f a = .ok b) :
    Relays construct types (x >>= f) := by
  have h : Relays construct (types ++ []) (x >>= f) := by
    refine hx.bind fun a => ?_
    obtain ⟨b, hb⟩ := hf a
    rw [hb]
    exact .ok b
  rwa [List.append_nil] at h

/-- A first stage that succeeds. -/
theorem lead {a : α} (hx : x = .ok a) (hf : Relays construct types (f a)) :
    Relays construct types (x >>= f) := by
  rw [hx]
  exact hf

end Relays

section Faultless

variable {ctx : Context} {scope : Scope}

/-- A path that starts with a visible variable has code. -/
theorem Expr.pathCode_of_resolves {names : List String}
    (h : (Expr.path names).resolves ctx scope = true) : ∃ c, ctx.pathCode scope names = .ok c := by
  cases names with
  | nil => cases h
  | cons base fields =>
    obtain ⟨slot, hslot⟩ := Option.isSome_iff_exists.1 h
    refine ⟨.load slot :: fields.map .getField, bind_eq_ok.2 ⟨slot, ?_, rfl⟩⟩
    unfold Context.slot
    rw [hslot]

/-- A call with the right number of arguments has code for its callee. -/
theorem Expr.calleeCode_of_resolves {name : String} {args : List Expr}
    (h : (Expr.call name args).resolves ctx scope = true) :
    ∃ c, ctx.calleeCode name args.length = .ok c :=
  (ctx.calleeCode_decides name args.length).ok_iff.2 (of_decide_eq_true h)

mutual

/-- In an expression whose names all mean something, only constructions can fail. Induction on the
expression. -/
theorem Expr.codeWith_relays {construct : String → Except LoweringError Code} : ∀ (e : Expr),
    e.all (Expr.resolves ctx scope) = true →
      (∀ type ∈ e.newTypes, (∃ c, construct type = .ok c) ∨ Endless (construct type)) →
        Relays construct e.newTypes (e.codeWith ctx scope construct)
  | .literal l, _, _ => .ok _
  | .path names, h, _ => by
    obtain ⟨c, hc⟩ := Expr.pathCode_of_resolves h
    rw [Expr.codeWith, hc]
    exact .ok c
  | .new type, _, hnew =>
    ⟨hnew type (List.mem_singleton_self type), fun _ hmem hmet => List.mem_singleton.1 hmem ▸ hmet⟩
  | .call name args, h, hnew => by
    rw [Expr.all, Bool.and_eq_true] at h
    obtain ⟨callee, hcallee⟩ := Expr.calleeCode_of_resolves h.1
    rw [Expr.codeWith]
    exact .lead hcallee ((Expr.codeAllWith_relays args h.2 hnew).map fun _ => ⟨_, rfl⟩)
  | .unary op e, h, hnew => by
    rw [Expr.all, Bool.and_eq_true] at h
    rw [Expr.codeWith]
    exact (Expr.codeWith_relays e h.2 hnew).map fun _ => ⟨_, rfl⟩
  | .binary op left right, h, hnew => by
    rw [Expr.all, Bool.and_eq_true, Bool.and_eq_true] at h
    rw [Expr.codeWith]
    -- Whichever operand meets the bound first, the types that it constructs are among those of
    -- both.
    have hleft := Expr.codeWith_relays left h.1.2
      fun type hmem => hnew type (List.mem_append_left _ hmem)
    have hright := Expr.codeWith_relays right h.2
      fun type hmem => hnew type (List.mem_append_right _ hmem)
    exact hleft.bind fun _ => hright.map fun _ => ⟨_, rfl⟩
  | .group e, h, hnew => by
    rw [Expr.all, Bool.and_eq_true] at h
    rw [Expr.codeWith]
    exact Expr.codeWith_relays e h.2 hnew

theorem Expr.codeAllWith_relays {construct : String → Except LoweringError Code} :
    ∀ (es : List Expr), Expr.allIn (Expr.resolves ctx scope) es = true →
      (∀ type ∈ Expr.newTypesAll es, (∃ c, construct type = .ok c) ∨ Endless (construct type)) →
        Relays construct (Expr.newTypesAll es) (Expr.codeAllWith ctx scope construct es)
  | [], _, _ => .ok _
  | e :: rest, h, hnew => by
    rw [Expr.allIn, Bool.and_eq_true] at h
    rw [Expr.codeAllWith]
    have hfirst := Expr.codeWith_relays e h.1
      fun type hmem => hnew type (List.mem_append_left _ hmem)
    have hrest := Expr.codeAllWith_relays rest h.2
      fun type hmem => hnew type (List.mem_append_right _ hmem)
    exact hfirst.bind fun _ => hrest.map fun _ => ⟨_, rfl⟩

end

theorem fieldsCode_relays {construct : String → Except LoweringError Code} (fields : List VarDecl)
    (h : Expr.allIn (Expr.resolves ctx scope) (fields.map VarDecl.init) = true)
    (hnew : ∀ type ∈ Expr.newTypesAll (fields.map VarDecl.init),
      (∃ c, construct type = .ok c) ∨ Endless (construct type)) :
    Relays construct (Expr.newTypesAll (fields.map VarDecl.init))
      (fieldsCode (Expr.codeWith ctx scope construct) fields) := by
  induction fields with
  | nil => exact .ok _
  | cons field rest ih =>
    rw [List.map_cons, Expr.allIn, Bool.and_eq_true] at h
    have hfirst := Expr.codeWith_relays field.init h.1
      fun type hmem => hnew type (List.mem_append_left _ hmem)
    have hrest := ih h.2 fun type hmem => hnew type (List.mem_append_right _ hmem)
    exact hfirst.bind fun _ => hrest.map fun _ => ⟨_, rfl⟩

/-- A faultless type is constructed, or meets its bound if one of the types inside does. -/
theorem constructCode_relays {depth : Nat} {type : String} {decl : TypeDecl}
    (hdecl : Declares ctx.table ctx.types type decl)
    (h : Expr.allIn (Expr.resolves ctx scope) (decl.fields.map VarDecl.init) = true)
    (hnew : ∀ inner ∈ Expr.newTypesAll (decl.fields.map VarDecl.init),
      (∃ c, constructCode ctx scope depth inner = .ok c) ∨
        Endless (constructCode ctx scope depth inner)) :
    Relays (constructCode ctx scope depth) (Expr.newTypesAll (decl.fields.map VarDecl.init))
      (constructCode ctx scope (depth + 1) type) := by
  obtain ⟨names, hlayout⟩ := Context.layout_of_declares hdecl
  rw [constructCode]
  exact .lead hlayout ((fieldsCode_relays decl.fields h hnew).map fun _ => ⟨_, rfl⟩)

/-- A type that leads to faultless types only is constructed or meets its bound. Induction on the
bound. -/
theorem constructCode_settled (depth : Nat) {type : String}
    (h : ∀ t, Relation.ReflTransGen (Initialises ctx.types) type t → Faultless ctx scope t) :
    (∃ c, constructCode ctx scope depth type = .ok c) ∨
      Endless (constructCode ctx scope depth type) := by
  induction depth generalizing type with
  | zero =>
    obtain ⟨decl, hdecl, _⟩ := h type .refl
    exact .inr (endless_zero hdecl)
  | succ depth ih =>
    obtain ⟨decl, hdecl, hall⟩ := h type .refl
    refine (constructCode_relays hdecl hall fun inner hmem => ih fun t hreach => ?_).settled
    exact h t (hreach.head ⟨decl, hdecl.2, hmem⟩)

/-- A type that leads back to itself meets every bound, if all types that it leads to are
faultless. -/
theorem endless_of_faultless (depth : Nat) {type : String}
    (hcycle : Relation.TransGen (Initialises ctx.types) type type)
    (h : ∀ t, Relation.ReflTransGen (Initialises ctx.types) type t → Faultless ctx scope t) :
    Endless (constructCode ctx scope depth type) := by
  induction depth generalizing type with
  | zero =>
    obtain ⟨decl, hdecl, _⟩ := h type .refl
    exact endless_zero hdecl
  | succ depth ih =>
    obtain ⟨next, hstep, hback⟩ := Relation.TransGen.head'_iff.1 hcycle
    have hnext : ∀ t, Relation.ReflTransGen (Initialises ctx.types) next t →
        Faultless ctx scope t := fun t hreach => h t (hreach.head hstep)
    -- The next type of the cycle leads back to itself as well, and meets the smaller bound.
    have hmet := ih (.tail' hback hstep) hnext
    obtain ⟨decl, hdecl, hall⟩ := h type .refl
    obtain ⟨decl', hdecl', hmem⟩ := hstep
    obtain rfl : decl = decl' := Option.some.inj (hdecl.2.symm.trans hdecl')
    refine (constructCode_relays hdecl hall fun inner hinner => ?_).endless next hmem hmet
    exact constructCode_settled depth fun t hreach => h t (hreach.head ⟨decl, hdecl', hinner⟩)

end Faultless

/-! ## Generation -/

/-- Generation ends, with the compiled program or with a refusal, if no infinite chain of record
types starts from a type that a function constructs. Conversely, where a record type leads back to
itself and nothing is wrong with the types that it leads to, no depth suffices to construct it. -/
theorem Program.emit_ends (p : Program) (table : TypeTable) :
    ((∀ chain : Nat → String, chain 0 ∈ p.newTypes →
        ∃ n, ¬Initialises p.types (chain n) (chain (n + 1))) →
      ∃ depth, ∀ g : Generator, ∃ g', p.emit table depth g = some (p.lower table, g') ∧
        ¬Endless (p.lower table)) ∧
    ∀ (g : Generator) (type : String), g.types = p.types →
      Relation.TransGen (Initialises p.types) type type →
      (∀ t, Relation.ReflTransGen (Initialises p.types) type t →
        Faultless (g.context table) g.scope t) →
      ∀ depth, (Expr.new type).emit table depth g = none ∧
        Endless (constructCode (g.context table) g.scope depth type) := by
  constructor
  · intro hchains
    -- Otherwise a function would construct a type from which an infinite chain starts.
    have hend : ¬Endless (p.lower table) := by
      intro hend
      obtain ⟨type, hmem, t, hreach, hcycle⟩ := lower_blames hend
      obtain ⟨chain, hstart, hsteps⟩ := exists_chain_of_cycle hreach hcycle
      obtain ⟨n, hstop⟩ := hchains chain (hstart ▸ hmem)
      exact hstop (hsteps n)
    -- The bound of lowering suffices, since lowering does not meet it.
    refine ⟨p.types.length, fun g => ?_⟩
    obtain ⟨g', hemit⟩ := (p.emit_follows table (Nat.le_refl _) g).exists_outcome hend
    exact ⟨g', hemit, hend⟩
  · intro g type htypes hcycle hfaultless depth
    rw [← htypes] at hcycle hfaultless
    have hmet : Endless (constructCode (g.context table) g.scope depth type) :=
      endless_of_faultless depth hcycle hfaultless
    exact ⟨(emitNew_appends depth type g ⟨rfl, rfl⟩).eq_none hmet, hmet⟩

/-- A program with two types that construct each other and that no function constructs. Another type
would construct itself, but for a later declaration of it. -/
def Program.ring : Program where
  types :=
    [⟨"Leaf", [⟨"inner", none, .new "Leaf"⟩]⟩,
      ⟨"Pair", [⟨"left", none, .new "Leaf"⟩, ⟨"right", none, .new "Leaf"⟩]⟩,
      ⟨"Leaf", [⟨"value", none, .literal (.int 0)⟩]⟩,
      ⟨"Ring", [⟨"next", none, .new "Link"⟩]⟩,
      ⟨"Link", [⟨"size", none, .path ["size"]⟩, ⟨"next", none, .new "Ring"⟩]⟩]
  functions := [.main [.declare ⟨"first", none, .new "Pair"⟩]]

/-- A place in a function of that program where the variable is visible that one of the types
names. -/
def Generator.inRing : Generator where
  types := Program.ring.types
  blueprint := ⟨"main", 0, #[]⟩
  scope := Scope.ofParams ["size"]

/-- The program is generated, and no depth suffices to construct the two types at this place. -/
theorem Program.emit_ends_ring :
    (∃ depth, ∀ g : Generator, ∃ g', ring.emit (.ofProgram ring) depth g
      = some (ring.lower (.ofProgram ring), g') ∧ ¬Endless (ring.lower (.ofProgram ring))) ∧
    ∀ depth, (Expr.new "Ring").emit (.ofProgram ring) depth .inRing = none := by
  have hpair : ∀ inner, Initialises ring.types "Pair" inner → inner = "Leaf" := by
    rintro inner ⟨decl, hdecl, hinner⟩
    cases hdecl
    simpa [Expr.newTypesAll, Expr.newTypes] using hinner
  have hleaf : ∀ inner, ¬Initialises ring.types "Leaf" inner := by
    rintro inner ⟨decl, hdecl, hinner⟩
    cases hdecl
    simp [Expr.newTypesAll, Expr.newTypes] at hinner
  have hring : Initialises ring.types "Ring" "Link" := ⟨_, rfl, List.mem_singleton_self _⟩
  have hlink : Initialises ring.types "Link" "Ring" := ⟨_, rfl, List.mem_singleton_self _⟩
  obtain ⟨hends, hnever⟩ := emit_ends ring (.ofProgram ring)
  refine ⟨hends ?_, fun depth =>
    (hnever .inRing "Ring" rfl (.tail (.single hring) hlink) ?_ depth).1⟩
  · intro chain hstart
    by_contra hnone
    -- A chain from the only type that is constructed stops at its second step.
    have hall : ∀ n, Initialises ring.types (chain n) (chain (n + 1)) :=
      fun n => not_not.1 fun hstop => hnone ⟨n, hstop⟩
    have hfirst : chain 0 = "Pair" := List.mem_singleton.1 hstart
    have hsecond : chain 1 = "Leaf" := hpair _ (hfirst ▸ hall 0)
    exact hleaf (chain 2) (hsecond ▸ hall 1)
  · intro t hreach
    have hboth : t = "Ring" ∨ t = "Link" := by
      induction hreach with
      | refl => exact .inl rfl
      | tail _ hstep ih =>
        obtain ⟨decl, hdecl, hinner⟩ := hstep
        rcases ih with rfl | rfl
        · cases hdecl
          exact .inr (by simpa [Expr.newTypesAll, Expr.newTypes] using hinner)
        · cases hdecl
          exact .inl (by simpa [Expr.newTypesAll, Expr.newTypes] using hinner)
    rcases hboth with rfl | rfl
    · exact ⟨_, ⟨rfl, rfl⟩, rfl⟩
    · exact ⟨_, ⟨rfl, rfl⟩, rfl⟩

end RecordMachine
