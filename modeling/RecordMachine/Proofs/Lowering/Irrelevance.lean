import RecordMachine.Proofs.Lowering.Blueprints
import RecordMachine.Proofs.Tree.Traversal

/-!
# What lowering does not look at

Parentheses group, and have done their work once there is a tree; type names are for a checker.
Neither leaves a trace in the code: `Program.bare` removes all parentheses and all types of
variables and fields and puts arbitrary names in the place of the others, and the program is lowered
as before, to the same blueprints or to the same error (`Program.types_and_parentheses_irrelevant`).

The table that a program makes of itself does change: it loses the types that were written down and
gains those of initial values that stood in parentheses. But all that lowering asks of it are the
names of fields and the numbers of parameters (`Context.Bares`).
-/

namespace RecordMachine

/-! ## Programs without parentheses and types -/

mutual

def Expr.bare : Expr → Expr
  | .literal l => .literal l
  | .path names => .path names
  | .new type => .new type
  | .call name args => .call name (Expr.bareAll args)
  | .unary op e => .unary op e.bare
  | .binary op left right => .binary op left.bare right.bare
  | .group e => e.bare

def Expr.bareAll : List Expr → List Expr
  | [] => []
  | e :: rest => e.bare :: Expr.bareAll rest

end

/-- The declaration without its type, and with a bare initial value. -/
def VarDecl.bare (d : VarDecl) : VarDecl := ⟨d.name, none, d.init.bare⟩

mutual

def Stmt.bare : Stmt → Stmt
  | .declare decl => .declare decl.bare
  | .assign target value => .assign target value.bare
  | .ifChain chain => .ifChain (Chain.bare chain)
  | .whileLoop cond body => .whileLoop cond.bare (Stmt.bareAll body)
  | .forLoop var start direction stop body =>
    .forLoop var start.bare direction stop.bare (Stmt.bareAll body)
  | .ret none => .ret none
  | .ret (some value) => .ret (some value.bare)
  | .delete name => .delete name
  | .call name args => .call name (Expr.bareAll args)

def Stmt.bareAll : List Stmt → List Stmt
  | [] => []
  | s :: rest => s.bare :: Stmt.bareAll rest

def Chain.bare : Chain → Chain
  | .done => .done
  | .otherwise body => .otherwise (Stmt.bareAll body)
  | .branch cond body rest => .branch cond.bare (Stmt.bareAll body) rest.bare

end

def TypeDecl.bare (d : TypeDecl) : TypeDecl := ⟨d.name, d.fields.map VarDecl.bare⟩

/-- Any names for the types of the functions of a program: of what the `k`-th function returns, and
of its parameters by their number. -/
structure Retyping where
  result : Nat → String
  param : Nat → Nat → String

def FunDecl.bare (f : FunDecl) (result : String) (param : Nat → String) : FunDecl where
  name := f.name
  returnType := result
  params := f.params.mapIdx fun k p => ⟨p.name, param k⟩
  body := Stmt.bareAll f.body

/-- The program without parentheses and without types of variables and fields, and with other types
of its functions. -/
def Program.bare (p : Program) (types : Retyping) : Program where
  types := p.types.map TypeDecl.bare
  functions := p.functions.mapIdx fun k f => f.bare (types.result k) (types.param k)

def Expr.isGroup : Expr → Bool
  | .group _ => true
  | _ => false

/-! ## No parentheses are left -/

mutual

/-- No part of a bare expression stands in parentheses. -/
theorem Expr.all_bare : ∀ e : Expr, e.bare.all (fun e => !e.isGroup) = true
  | .literal _ | .path _ | .new _ => rfl
  | .call _ args => Bool.and_eq_true_iff.2 ⟨rfl, Expr.allIn_bareAll args⟩
  | .unary _ e => Bool.and_eq_true_iff.2 ⟨rfl, Expr.all_bare e⟩
  | .binary _ left right => by
    have hleft := Bool.and_eq_true_iff.2 ⟨rfl, Expr.all_bare left⟩
    exact Bool.and_eq_true_iff.2 ⟨hleft, Expr.all_bare right⟩
  | .group e => Expr.all_bare e

theorem Expr.allIn_bareAll : ∀ es : List Expr,
    Expr.allIn (fun e => !e.isGroup) (Expr.bareAll es) = true
  | [] => rfl
  | e :: rest => by simp [Expr.bareAll, Expr.allIn, Expr.all_bare e, Expr.allIn_bareAll rest]

end

mutual

/-- No part of a bare statement stands in parentheses. -/
theorem Stmt.all_bare : ∀ s : Stmt, s.bare.all (fun e => !e.isGroup) = true
  | .declare decl => Expr.all_bare decl.init
  | .assign _ value => Bool.and_eq_true_iff.2 ⟨rfl, Expr.all_bare value⟩
  | .ifChain chain => Chain.all_bare chain
  | .whileLoop cond body => by
    simp [Stmt.bare, Stmt.all, Expr.all_bare cond, Stmt.allIn_bareAll body]
  | .forLoop _ start _ stop body => by
    simp [Stmt.bare, Stmt.all, Expr.all_bare start, Expr.all_bare stop, Stmt.allIn_bareAll body]
  | .ret none => rfl
  | .ret (some value) => Expr.all_bare value
  | .delete _ => rfl
  | .call name args => Expr.all_bare (.call name args)

theorem Stmt.allIn_bareAll : ∀ body : List Stmt,
    Stmt.allIn (fun e => !e.isGroup) (Stmt.bareAll body) = true
  | [] => rfl
  | s :: rest => by simp [Stmt.bareAll, Stmt.allIn, Stmt.all_bare s, Stmt.allIn_bareAll rest]

theorem Chain.all_bare : ∀ chain : Chain, chain.bare.all (fun e => !e.isGroup) = true
  | .done => rfl
  | .otherwise body => Stmt.allIn_bareAll body
  | .branch cond body rest => by
    simp [Chain.bare, Chain.all, Expr.all_bare cond, Stmt.allIn_bareAll body, Chain.all_bare rest]

end

/-- Nor does a part of the initial values of a bare record type. -/
theorem TypeDecl.all_bare (d : TypeDecl) : d.bare.all (fun e => !e.isGroup) = true := by
  simp [TypeDecl.all, TypeDecl.bare, VarDecl.bare, Expr.all_bare]

/-- A bare program has no parentheses at all. -/
theorem Program.all_bare (p : Program) (types : Retyping) :
    (p.bare types).all (fun e => !e.isGroup) = true := by
  have htypes : (p.types.map TypeDecl.bare).all (TypeDecl.all fun e => !e.isGroup) = true := by
    simp [TypeDecl.all_bare]
  have hfunctions : (p.bare types).functions.all
      (fun f => Stmt.allIn (fun e => !e.isGroup) f.body) = true := by
    rw [List.all_eq_true]
    intro f hf
    obtain ⟨k, hk, rfl⟩ := List.mem_mapIdx.1 hf
    exact Stmt.allIn_bareAll _
  exact Bool.and_eq_true_iff.2 ⟨htypes, hfunctions⟩

/-! ## What stays -/

/-- The recursion over arguments is a map; it is written out only for the termination of
`Expr.bare`. -/
theorem Expr.bareAll_eq_map (es : List Expr) : Expr.bareAll es = es.map Expr.bare := by
  induction es with
  | nil => rfl
  | cons e rest ih => rw [Expr.bareAll, ih, List.map_cons]

theorem Stmt.bareAll_eq_map (body : List Stmt) : Stmt.bareAll body = body.map Stmt.bare := by
  induction body with
  | nil => rfl
  | cons s rest ih => rw [Stmt.bareAll, ih, List.map_cons]

/-- A bare statement returns exactly if the statement does. -/
theorem Stmt.isReturn_bare (s : Stmt) : s.bare.isReturn = s.isReturn := by
  cases s with
  | ret value => cases value <;> rfl
  | _ => rfl

theorem Chain.isDone_bare (chain : Chain) : chain.bare.isDone = chain.isDone := by
  cases chain <;> rfl

/-- Whether a body is closed by returning nil depends on its last statement only. -/
theorem closingCode_bareAll (body : List Stmt) :
    closingCode (Stmt.bareAll body) = closingCode body := by
  have hlast : (body.map Stmt.bare).getLast?.any Stmt.isReturn
      = body.getLast?.any Stmt.isReturn := by
    rw [List.getLast?_map, Option.any_map]
    congr 1
    funext s
    exact s.isReturn_bare
  simp only [closingCode, Stmt.bareAll_eq_map, hlast]

/-- The last declaration of a record type is still the last one. -/
theorem TypeDecl.find?_map_bare (types : List TypeDecl) (type : String) :
    ((types.map TypeDecl.bare).reverse.find? fun d => d.name == type) =
      (types.reverse.find? fun d => d.name == type).map TypeDecl.bare := by
  have hname : (fun d : TypeDecl => d.name == type) ∘ TypeDecl.bare = fun d => d.name == type := rfl
  rw [← List.map_reverse, List.find?_map, hname]

/-- What a change of the elements keeps is the same along the changed list. -/
theorem map_mapIdx_eq_map {α β : Type} {change : Nat → α → α} {g : α → β}
    (h : ∀ k a, g (change k a) = g a) (l : List α) : (l.mapIdx change).map g = l.map g := by
  induction l generalizing change with
  | nil => rfl
  | cons a rest ih =>
    rw [List.mapIdx_cons, List.map_cons, List.map_cons, h, ih fun k => h (k + 1)]

theorem FunDecl.paramNames_bare (f : FunDecl) (result : String) (param : Nat → String) :
    (f.bare result param).params.map Param.name = f.params.map Param.name := by
  unfold FunDecl.bare
  apply map_mapIdx_eq_map
  intro k p
  rfl

theorem FunDecl.paramCount_bare (f : FunDecl) (result : String) (param : Nat → String) :
    (f.bare result param).params.length = f.params.length :=
  List.length_mapIdx

/-! ## What lowering asks of its context -/

/-- The second context is that of the bare program: it declares the bare record types, and its table
gives the same fields and the same numbers of parameters. -/
structure Context.Bares (ctx ctx' : Context) : Prop where
  function : ctx'.function = ctx.function
  types : ctx'.types = ctx.types.map TypeDecl.bare
  fields (type : String) : ctx'.table.fields? type = ctx.table.fields? type
  arity (name : String) : ctx'.table.arity? name = ctx.table.arity? name

namespace Context.Bares

variable {ctx ctx' : Context} (h : ctx.Bares ctx')

include h

/-- Variables are looked up in the scope; the context is only asked for the function that an error
is in. -/
theorem slot_eq (scope : Scope) (name : String) : ctx'.slot scope name = ctx.slot scope name := by
  simp only [slot, h.function]

theorem pathCode_eq (scope : Scope) (names : List String) :
    ctx'.pathCode scope names = ctx.pathCode scope names := by
  cases names with
  | nil => simp only [pathCode, h.function]
  | cons base fields => simp only [pathCode, h.slot_eq]

/-- A callee is found by its name and the number of its arguments. -/
theorem calleeCode_eq (name : String) (args : Nat) :
    ctx'.calleeCode name args = ctx.calleeCode name args := by
  simp only [calleeCode, h.arity, h.function]

/-- There are as many record types, so constructions may nest as deep. -/
theorem depthLimit_eq : ctx'.depthLimit = ctx.depthLimit := by
  simp only [depthLimit, h.types, List.length_map]

theorem decl?_eq (type : String) : ctx'.decl? type = (ctx.decl? type).map TypeDecl.bare := by
  rw [decl?, decl?, h.types, TypeDecl.find?_map_bare]

/-- The initial values of a record type are the bare ones, for the same names of fields. -/
theorem layout_eq (type : String) :
    ctx'.layout type =
      (ctx.layout type).map fun layout => (layout.1, layout.2.map VarDecl.bare) := by
  unfold layout
  rw [h.fields, h.decl?_eq, h.function]
  cases ctx.table.fields? type with
  | none => rfl
  | some names => cases ctx.decl? type <;> rfl

end Context.Bares

/-! ## Expressions -/

section Lowering

variable {ctx ctx' : Context}

mutual

/-- Without its parentheses an expression has the same code, if constructions have. -/
theorem Expr.codeWith_bare (h : ctx.Bares ctx') (scope : Scope)
    (construct : String → Except LoweringError Code) : ∀ e : Expr,
      e.bare.codeWith ctx' scope construct = e.codeWith ctx scope construct
  | .literal _ => rfl
  | .path names => h.pathCode_eq scope names
  | .new _ => rfl
  | .call name args => by
    have hlength : (Expr.bareAll args).length = args.length := by
      rw [Expr.bareAll_eq_map, List.length_map]
    have hargs := Expr.codeAllWith_bare h scope construct args
    simp only [Expr.bare, Expr.codeWith, h.calleeCode_eq, hlength, hargs]
  | .unary op e => by
    have he := Expr.codeWith_bare h scope construct e
    simp only [Expr.bare, Expr.codeWith, he]
  | .binary op left right => by
    have hleft := Expr.codeWith_bare h scope construct left
    have hright := Expr.codeWith_bare h scope construct right
    simp only [Expr.bare, Expr.codeWith, hleft, hright]
  | .group e => by
    have he := Expr.codeWith_bare h scope construct e
    simp only [Expr.bare, Expr.codeWith, he]

theorem Expr.codeAllWith_bare (h : ctx.Bares ctx') (scope : Scope)
    (construct : String → Except LoweringError Code) : ∀ es : List Expr,
      Expr.codeAllWith ctx' scope construct (Expr.bareAll es) =
        Expr.codeAllWith ctx scope construct es
  | [] => rfl
  | e :: rest => by
    have he := Expr.codeWith_bare h scope construct e
    have hrest := Expr.codeAllWith_bare h scope construct rest
    simp only [Expr.bareAll, Expr.codeAllWith, he, hrest]

end

/-- The bare initial values have the code of the initial values, if each of them has. -/
theorem fieldsCode_bare {lower lower' : Expr → Except LoweringError Code}
    (h : ∀ e, lower' e.bare = lower e) (fields : List VarDecl) :
    fieldsCode lower' (fields.map VarDecl.bare) = fieldsCode lower fields := by
  induction fields with
  | nil => rfl
  | cons field rest ih => simp only [List.map_cons, fieldsCode, VarDecl.bare, h, ih]

/-- A construction has the same code in the bare program. Induction on the bound. -/
theorem constructCode_bare (h : ctx.Bares ctx') (scope : Scope) (depth : Nat) (type : String) :
    constructCode ctx' scope depth type = constructCode ctx scope depth type := by
  induction depth generalizing type with
  | zero =>
    rw [constructCode, constructCode, h.layout_eq, h.function]
    cases ctx.layout type <;> rfl
  | succ depth ih =>
    have hsame : constructCode ctx' scope depth = constructCode ctx scope depth := funext ih
    -- The initial values of the bare type are the bare initial values, for any way of constructing.
    have hinits :=
      fieldsCode_bare fun e => Expr.codeWith_bare h scope (constructCode ctx scope depth) e
    rw [constructCode, constructCode, h.layout_eq, hsame]
    cases ctx.layout type with
    | error e => rfl
    | ok layout =>
      show (fieldsCode _ (layout.2.map VarDecl.bare) >>= _) = _
      rw [hinits]
      rfl

/-- An expression has the same code in the bare program. -/
theorem Expr.code_bare (h : ctx.Bares ctx') (scope : Scope) (e : Expr) :
    e.bare.code ctx' scope = e.code ctx scope := by
  have hconstruct : constructCode ctx' scope ctx.depthLimit
      = constructCode ctx scope ctx.depthLimit :=
    funext fun type => constructCode_bare h scope ctx.depthLimit type
  rw [Expr.code, Expr.code, h.depthLimit_eq, hconstruct, Expr.codeWith_bare h]

/-! ## Statements -/

mutual

/-- A statement has the same code in the bare program, and declares the same variables. -/
theorem Stmt.code_bare (h : ctx.Bares ctx') : ∀ (s : Stmt) (base : Nat) (scope : Scope),
    s.bare.code ctx' base scope = s.code ctx base scope
  | .declare decl, _, _ => by simp only [Stmt.bare, VarDecl.bare, Stmt.code, Expr.code_bare h]
  | .assign [] _, _, _ => by simp only [Stmt.bare, Stmt.code, h.function]
  | .assign (name :: fields) value, _, _ => by
    simp only [Stmt.bare, Stmt.code, Expr.code_bare h, h.slot_eq]
  | .ifChain chain, _, _ => by
    have hchain := Chain.code_bare h chain
    simp only [Stmt.bare, Stmt.code, hchain]
  | .whileLoop cond body, _, _ => by
    have hbody := Stmt.sequenceCode_bare h body
    simp only [Stmt.bare, Stmt.code, Expr.code_bare h, hbody]
  | .forLoop var start direction stop body, _, _ => by
    have hbody := Stmt.sequenceCode_bare h body
    simp only [Stmt.bare, Stmt.code, Expr.code_bare h, hbody]
  | .ret none, _, _ => rfl
  | .ret (some value), _, _ => by simp only [Stmt.bare, Stmt.code, Expr.code_bare h]
  | .delete name, _, _ => by simp only [Stmt.bare, Stmt.code, h.slot_eq]
  | .call name args, _, scope => by
    have hcall : (Expr.call name (Expr.bareAll args)).code ctx' scope =
        (Expr.call name args).code ctx scope := Expr.code_bare h scope (.call name args)
    simp only [Stmt.bare, Stmt.code, hcall]

theorem Stmt.sequenceCode_bare (h : ctx.Bares ctx') :
    ∀ (body : List Stmt) (base : Nat) (scope : Scope),
      Stmt.sequenceCode ctx' base scope (Stmt.bareAll body) = Stmt.sequenceCode ctx base scope body
  | [], _, _ => rfl
  | s :: rest, _, _ => by
    have hfirst := Stmt.code_bare h s
    have hrest := Stmt.sequenceCode_bare h rest
    simp only [Stmt.bareAll, Stmt.sequenceCode, hfirst, hrest]

theorem Chain.code_bare (h : ctx.Bares ctx') : ∀ (chain : Chain) (base : Nat) (scope : Scope),
    chain.bare.code ctx' base scope = chain.code ctx base scope
  | .done, _, _ => rfl
  | .otherwise body, _, _ => by
    have hbody := Stmt.sequenceCode_bare h body
    simp only [Chain.bare, Chain.code, hbody]
  | .branch cond body rest, _, _ => by
    have hbody := Stmt.sequenceCode_bare h body
    have hrest := Chain.code_bare h rest
    simp only [Chain.bare, Chain.code, Expr.code_bare h, hbody, hrest, Chain.isDone_bare]

end

end Lowering

/-! ## Functions -/

section Functions

variable {table table' : TypeTable} {types types' : List TypeDecl}

/-- A function has the same blueprint in the bare program. -/
theorem FunDecl.lower_bare (f : FunDecl) (result : String) (param : Nat → String)
    (h : Context.Bares ⟨table, types, f.name⟩ ⟨table', types', f.name⟩) :
    (f.bare result param).lower table' types' = f.lower table types := by
  have hbody := Stmt.sequenceCode_bare h f.body 0 (Scope.ofParams (f.params.map Param.name))
  have hnames := f.paramNames_bare result param
  have hcount := f.paramCount_bare result param
  have hclosing := closingCode_bareAll f.body
  unfold FunDecl.lower
  rw [hnames, hcount]
  simp only [FunDecl.bare, hbody, hclosing]

/-- All functions have the same blueprints, or lowering stops at the same one. Induction on the
functions. -/
theorem Program.lowerAll_bare
    (h : ∀ name, Context.Bares ⟨table, types, name⟩ ⟨table', types', name⟩) (fs : List FunDecl)
    (names : Retyping) (bc : Bytecode) :
    lowerAll table' types' bc (fs.mapIdx fun k f => f.bare (names.result k) (names.param k)) =
      lowerAll table types bc fs := by
  induction fs generalizing names bc with
  | nil => rfl
  | cons f rest ih =>
    -- The other functions keep their numbers, which start from one.
    have hrest := ih ⟨fun k => names.result (k + 1), fun k => names.param (k + 1)⟩
    have hfirst := f.lower_bare (names.result 0) (names.param 0) (h f.name)
    have hname : (f.bare (names.result 0) (names.param 0)).name = f.name := rfl
    simp only [List.mapIdx_cons, lowerAll, hname, hfirst, hrest]

end Functions

/-! ## Tables -/

namespace TypeTable

/-- Of a function the table gives the number of parameters in its last declaration. -/
theorem arity?_eq_find? (p : Program) (name : String) :
    (ofProgram p).arity? name =
      ((p.functions.map fun f => (f.name, f.params.length)).reverse.find? fun e => e.1 == name).map
        Prod.snd := by
  unfold arity? ofProgram
  rw [Dictionary.get?_ofList, ← List.map_reverse, ← List.map_reverse, List.find?_map,
    List.find?_map]
  simp only [Option.map_map]
  congr 1
  funext f
  simp

/-- The table of the bare program has the same numbers of parameters. -/
theorem arity?_bare (p : Program) (types : Retyping) (name : String) :
    (ofProgram (p.bare types)).arity? name = (ofProgram p).arity? name := by
  have hsame : ((p.bare types).functions.map fun f => (f.name, f.params.length)) =
      p.functions.map fun f => (f.name, f.params.length) := by
    unfold Program.bare
    apply map_mapIdx_eq_map
    intro k f
    rw [f.paramCount_bare]
    rfl
  rw [arity?_eq_find?, arity?_eq_find?, hsame]

theorem fields?_bare (p : Program) (types : Retyping) (type : String) :
    (ofProgram (p.bare types)).fields? type = (ofProgram p).fields? type := by
  have hrecord : (p.bare types).record? type = (p.record? type).map TypeDecl.bare :=
    TypeDecl.find?_map_bare p.types type
  have hfields : (fun d : TypeDecl => d.fields.map VarDecl.name) ∘ TypeDecl.bare =
      fun d => d.fields.map VarDecl.name := by
    funext d
    simp [TypeDecl.bare, VarDecl.bare, Function.comp_def]
  rw [fields?_ofProgram, fields?_ofProgram, hrecord, Option.map_map, hfields]

end TypeTable

/-- All that lowering asks of the two tables has the same answer. -/
theorem Context.bares_ofProgram (p : Program) (types : Retyping) (name : String) :
    Context.Bares ⟨.ofProgram p, p.types, name⟩
      ⟨.ofProgram (p.bare types), (p.bare types).types, name⟩ where
  function := rfl
  types := rfl
  fields := TypeTable.fields?_bare p types
  arity := TypeTable.arity?_bare p types

/-- The blueprints that are there when lowering stops are the same, too. -/
theorem Program.lowering_bare (p : Program) (types : Retyping) :
    (p.bare types).lowering (.ofProgram (p.bare types)) = p.lowering (.ofProgram p) :=
  lowerAll_bare (Context.bares_ofProgram p types) p.functions types .empty

/-- Parentheses and types leave no trace: without parentheses at any depth, without the types of
variables and fields, and with any types of functions and parameters, a program has the same code,
or fails with the same error. -/
theorem Program.types_and_parentheses_irrelevant (p : Program) (types : Retyping) :
    (p.bare types).all (fun e => !e.isGroup) = true ∧
      (p.bare types).lower (.ofProgram (p.bare types)) = p.lower (.ofProgram p) := by
  refine ⟨p.all_bare types, ?_⟩
  unfold Program.lower
  rw [p.lowering_bare types]

end RecordMachine
