import RecordMachine.Proofs.Lowering.Pieces

/-!
# What the code of a construction depends on

The initial values of a record type are lowered where an object of it is constructed, so a name in
them means the variable of that name at the place of the construction. Two constructions of one type
are lowered to code of the same length, and to the same code exactly if every variable that the
initial values mention, also those of the types constructed inside, is in the same slot at both
places (`Program.construction_eq_iff`). They are not lowered to the same code in general
(`Program.construction_ne`).
-/

namespace RecordMachine

/-! ## Variables in an expression -/

/-- An expression mentions a variable, itself or in the initial values of what it constructs. -/
inductive Expr.Mentions (types : List TypeDecl) : Expr → String → Prop where
  | path (base : String) (fields : List String) : Mentions types (.path (base :: fields)) base
  | new {type : String} {decl : TypeDecl} {field : VarDecl} {name : String}
      (hdecl : (types.reverse.find? fun d => d.name == type) = some decl)
      (hfield : field ∈ decl.fields) (h : Mentions types field.init name) :
      Mentions types (.new type) name
  | argument {callee : String} {args : List Expr} {e : Expr} {name : String} (he : e ∈ args)
      (h : Mentions types e name) : Mentions types (.call callee args) name
  | operand {op : UnaryOp} {e : Expr} {name : String} (h : Mentions types e name) :
      Mentions types (.unary op e) name
  | left {op : BinaryOp} {left right : Expr} {name : String} (h : Mentions types left name) :
      Mentions types (.binary op left right) name
  | right {op : BinaryOp} {left right : Expr} {name : String} (h : Mentions types right name) :
      Mentions types (.binary op left right) name
  | inner {e : Expr} {name : String} (h : Mentions types e name) : Mentions types (.group e) name

/-! ## Code that differs in slots only -/

/-- Two codes have the same length, and they are the same exactly if all mentioned variables are in
the same slots. -/
structure Matches (scope scope' : Scope) (mentions : String → Prop) (c c' : Code) : Prop where
  length_eq : c.length = c'.length
  eq_iff : c = c' ↔ ∀ name, mentions name → scope.resolve? name = scope'.resolve? name

namespace Matches

variable {scope scope' : Scope} {mentions mentions' : String → Prop} {c c' d d' : Code}

/-- Code that mentions no variable is the same in both scopes. -/
theorem same (c : Code) : Matches scope scope' (fun _ => False) c c where
  length_eq := rfl
  eq_iff := ⟨fun _ _ => False.elim, fun _ => rfl⟩

/-- Only which variables are mentioned matters. -/
theorem congr (h : Matches scope scope' mentions c c')
    (hiff : ∀ name, mentions name ↔ mentions' name) :
    Matches scope scope' mentions' c c' where
  length_eq := h.length_eq
  eq_iff := by
    rw [h.eq_iff]
    exact forall_congr' fun name => imp_congr_left (hiff name)

/-- Two pieces mention what one of them mentions. As the first parts have the same length, the whole
is the same exactly if both parts are. -/
theorem append (h : Matches scope scope' mentions c c') (h' : Matches scope scope' mentions' d d') :
    Matches scope scope' (fun name => mentions name ∨ mentions' name) (c ++ d) (c' ++ d') where
  length_eq := by rw [List.length_append, List.length_append, h.length_eq, h'.length_eq]
  eq_iff := by
    have hsplit : c ++ d = c' ++ d' ↔ c = c' ∧ d = d' :=
      ⟨fun heq => List.append_inj heq h.length_eq, fun hboth => by rw [hboth.1, hboth.2]⟩
    rw [hsplit, h.eq_iff, h'.eq_iff]
    constructor
    · rintro ⟨hfirst, hsecond⟩ name (hname | hname)
      · exact hfirst name hname
      · exact hsecond name hname
    · exact fun hall => ⟨fun name hname => hall name (.inl hname),
        fun name hname => hall name (.inr hname)⟩

/-- Instructions that do not depend on the scope, behind code that does. -/
theorem before (h : Matches scope scope' mentions c c') (d : Code) :
    Matches scope scope' mentions (c ++ d) (c' ++ d) :=
  (h.append (same d)).congr fun _ => or_iff_left id

/-- Instructions that do not depend on the scope, before code that does. -/
theorem after (h : Matches scope scope' mentions c c') (d : Code) :
    Matches scope scope' mentions (d ++ c) (d ++ c') :=
  ((same d).append h).congr fun _ => or_iff_right id

/-- Loading a variable is one instruction that carries its slot. -/
theorem load {slot slot' : Nat} {name : String} (h : scope.resolve? name = some slot)
    (h' : scope'.resolve? name = some slot') :
    Matches scope scope' (fun n => n = name) [.load slot] [.load slot'] where
  length_eq := rfl
  eq_iff := by
    simp [Instruction.load, h, h']

end Matches

/-! ## One expression at two places -/

section Places

variable {table : TypeTable} {types : List TypeDecl} {function function' : String}
  {scope scope' : Scope}

/-- The fields of a record type do not depend on the function in which it is constructed. -/
theorem Context.layout_unique {type : String} {names names' : List String}
    {fields fields' : List VarDecl}
    (h : Context.layout ⟨table, types, function⟩ type = .ok (names, fields))
    (h' : Context.layout ⟨table, types, function'⟩ type = .ok (names', fields')) :
    names = names' ∧ fields = fields' := by
  obtain ⟨decl, hnames, hdecl, rfl⟩ := Context.layout_cases h
  obtain ⟨decl', hnames', hdecl', rfl⟩ := Context.layout_cases h'
  have hsame : decl = decl' := Option.some.inj (hdecl.symm.trans hdecl')
  exact ⟨Option.some.inj (hnames.symm.trans hnames'), by rw [hsame]⟩

/-- The code of a callee does not depend on the function in which it is called. -/
theorem Context.calleeCode_unique {name : String} {count : Nat} {callee callee' : Code}
    (h : Context.calleeCode ⟨table, types, function⟩ name count = .ok callee)
    (h' : Context.calleeCode ⟨table, types, function'⟩ name count = .ok callee') :
    callee = callee' := by
  rcases Context.calleeCode_cases h with ⟨b, hb, _, rfl⟩ | ⟨hb, _, rfl⟩
  · rcases Context.calleeCode_cases h' with ⟨b', hb', _, rfl⟩ | ⟨hb', _⟩
    · rw [Option.some.inj (hb.symm.trans hb')]
    · rw [hb] at hb'
      cases hb'
  · rcases Context.calleeCode_cases h' with ⟨b', hb', _⟩ | ⟨_, _, rfl⟩
    · rw [hb] at hb'
      cases hb'
    · rfl

/-- A construction mentions what the initial values of its last declaration mention. -/
theorem Expr.mentions_new {type : String} {names : List String} {fields : List VarDecl}
    (h : Context.layout ⟨table, types, function⟩ type = .ok (names, fields)) (name : String) :
    (Expr.new type).Mentions types name ↔ ∃ field ∈ fields, field.init.Mentions types name := by
  obtain ⟨decl, _, hdecl, rfl⟩ := Context.layout_cases h
  constructor
  · intro hnew
    cases hnew with
    | new hdecl' hfield hinit =>
      cases Option.some.inj (hdecl.symm.trans hdecl')
      exact ⟨_, hfield, hinit⟩
  · rintro ⟨field, hfield, hinit⟩
    exact .new hdecl hfield hinit

mutual

/-- The code of one expression at two places. -/
theorem ExprCode.matches : ∀ {e : Expr} {c : Code}, ExprCode ⟨table, types, function⟩ scope e c →
    ∀ {c' : Code}, ExprCode ⟨table, types, function'⟩ scope' e c' →
      Matches scope scope' (e.Mentions types) c c'
  | _, _, .literal _, _, h' => by
    cases h'
    exact (Matches.same _).congr fun name => ⟨False.elim, fun h => by cases h⟩
  | _, _, .path hslot, _, h' => by
    cases h' with
    | path hslot' =>
      refine ((Matches.load hslot hslot').before _).congr fun name => ⟨?_, fun h => ?_⟩
      · rintro rfl
        exact .path _ _
      · cases h
        rfl
  | _, _, @ExprCode.new _ _ _ names _ _ hlayout hinits, _, h' => by
    cases h' with
    | new hlayout' hinits' =>
      -- The same initial values are lowered at both places.
      obtain ⟨rfl, rfl⟩ := Context.layout_unique hlayout hlayout'
      have hfields := (hinits.matches hinits').after [.alloc names]
      exact hfields.congr fun name => (Expr.mentions_new hlayout name).symm
  | _, _, .call hcallee hargs, _, h' => by
    cases h' with
    | call hcallee' hargs' =>
      obtain rfl := Context.calleeCode_unique hcallee hcallee'
      refine ((hargs.matches hargs').before _).congr fun name => ⟨?_, fun h => ?_⟩
      · rintro ⟨e, he, hname⟩
        exact .argument he hname
      · cases h with
        | argument he hname => exact ⟨_, he, hname⟩
  | _, _, .unary he, _, h' => by
    cases h' with
    | unary he' =>
      refine ((he.matches he').before _).congr fun name => ⟨.operand, fun h => ?_⟩
      cases h with
      | operand hname => exact hname
  | _, _, .binary hleft hright, _, h' => by
    cases h' with
    | binary hleft' hright' =>
      have hboth := (hleft.matches hleft').append (hright.matches hright')
      refine (hboth.before _).congr fun name => ⟨?_, fun h => ?_⟩
      · rintro (hname | hname)
        · exact .left hname
        · exact .right hname
      · cases h with
        | left hname => exact .inl hname
        | right hname => exact .inr hname
  | _, _, .group he, _, h' => by
    cases h' with
    | group he' =>
      refine (he.matches he').congr fun name => ⟨.inner, fun h => ?_⟩
      cases h with
      | inner hname => exact hname
termination_by structural _ _ h => h

theorem ArgsCode.matches : ∀ {es : List Expr} {c : Code},
    ArgsCode ⟨table, types, function⟩ scope es c →
      ∀ {c' : Code}, ArgsCode ⟨table, types, function'⟩ scope' es c' →
        Matches scope scope' (fun name => ∃ e ∈ es, e.Mentions types name) c c'
  | _, _, .nil, _, h' => by
    cases h'
    exact (Matches.same _).congr fun name => by simp
  | _, _, .cons he hrest, _, h' => by
    cases h' with
    | cons he' hrest' =>
      exact ((he.matches he').append (hrest.matches hrest')).congr fun name => by simp
termination_by structural _ _ h => h

theorem FieldsCode.matches : ∀ {fields : List VarDecl} {c : Code},
    FieldsCode ⟨table, types, function⟩ scope fields c →
      ∀ {c' : Code}, FieldsCode ⟨table, types, function'⟩ scope' fields c' →
        Matches scope scope' (fun name => ∃ field ∈ fields, field.init.Mentions types name) c c'
  | _, _, .nil, _, h' => by
    cases h'
    exact (Matches.same _).congr fun name => by simp
  | _, _, @FieldsCode.cons _ _ field _ _ _ hinit hrest, _, h' => by
    cases h' with
    | cons hinit' hrest' =>
      have hbehind := (hrest.matches hrest').after [.setField field.name]
      have hall := ((hinit.matches hinit').append hbehind).after [.plain .dup]
      exact hall.congr fun name => by simp
termination_by structural _ _ h => h

end

end Places

/-! ## One record type at two places -/

/-- In a compiled program, two constructions of one record type stand in the blueprints of their
functions with code of the same length, and with the same code exactly if every variable that the
initial values mention is in the same slot at both places. -/
theorem Program.construction_eq_iff {p : Program} {table : TypeTable} {bc : Bytecode}
    (h : p.lower table = .ok bc) {type : String} {f f' : FunDecl} {base base' : Nat}
    {scope scope' : Scope} {c c' : Code} (hf : f ∈ p.functions) (hf' : f' ∈ p.functions)
    (hnew : f.Has table p.types ⟨.expression (.new type), base, scope, c⟩)
    (hnew' : f'.Has table p.types ⟨.expression (.new type), base', scope', c'⟩) :
    (∃ b, bc.get? f.name = some b ∧ Placed b.code base c) ∧
    (∃ b', bc.get? f'.name = some b' ∧ Placed b'.code base' c') ∧
    c.length = c'.length ∧
    (c = c' ↔ ∀ name, (Expr.new type).Mentions p.types name →
      scope.resolve? name = scope'.resolve? name) := by
  refine ⟨placed_of_has h hf hnew, placed_of_has h hf' hnew', ?_⟩
  -- Both are code of the same expression, only in different scopes.
  cases hnew.lowered with
  | expression hcode =>
    cases hnew'.lowered with
    | expression hcode' =>
      have hmatches := hcode.matches hcode'
      exact ⟨hmatches.length_eq, hmatches.eq_iff⟩

/-- A function that only returns a value has the code of this value, where its parameters are
visible. -/
theorem FunDecl.has_returned {f : FunDecl} {table : TypeTable} {types : List TypeDecl} {e : Expr}
    (hbody : f.body = [.ret (some e)]) {c : Code}
    (hc : e.code ⟨table, types, f.name⟩ (Scope.ofParams (f.params.map Param.name)) = .ok c) :
    f.Has table types ⟨.expression e, 0, Scope.ofParams (f.params.map Param.name), c⟩ := by
  have hreturn : Piece.Holds ⟨table, types, f.name⟩
      ⟨.statement (.ret (some e)), 0, _, c ++ [.plain .ret]⟩ ⟨.expression e, 0, _, c⟩ :=
    .returned (Expr.shape hc)
  have hfirst : Piece.Holds ⟨table, types, f.name⟩
      ⟨.statements ([] ++ .ret (some e) :: []), 0, _, [] ++ ((c ++ [.plain .ret]) ++ [])⟩
      ⟨.statement (.ret (some e)), 0, _, c ++ [.plain .ret]⟩ :=
    .statement .nil (.ret (Expr.shape hc))
  -- The return statement is the only one of the body, and nothing stands before its value.
  refine ⟨c ++ [.plain .ret], Scope.ofParams (f.params.map Param.name), ?_, ?_⟩
  · rw [hbody, Stmt.sequenceCode, Stmt.code, hc]
    simp [Stmt.sequenceCode, bind, Except.bind, pure, Except.pure]
  · rw [List.nil_append, List.nil_append, List.append_nil, ← hbody] at hfirst
    exact .tail (.single hfirst) hreturn

/-- Two functions that construct an object whose initial value is the variable `y`, which is in
another slot in each of them. -/
def Program.capturing : Program where
  types := [⟨"T", [⟨"x", none, .path ["y"]⟩]⟩]
  functions :=
    [⟨"f", "T", [⟨"y", "int"⟩], [.ret (some (.new "T"))]⟩,
      ⟨"g", "T", [⟨"z", "int"⟩, ⟨"y", "int"⟩], [.ret (some (.new "T"))]⟩]

/-- The code of the construction in that program where `y` is in a slot. -/
def captureCode (slot : Nat) : Code :=
  [.alloc ["x"], .plain .dup, .load slot, .setField "x"]

/-- The two constructions have different code, since `y` is mentioned. -/
theorem Program.construction_eq_iff_capturing :
    ∃ bc, capturing.lower (.ofProgram capturing) = .ok bc ∧
      (captureCode 0).length = (captureCode 1).length ∧ captureCode 0 ≠ captureCode 1 ∧
      ¬∀ name, (Expr.new "T").Mentions capturing.types name →
        (Scope.ofParams ["y"]).resolve? name = (Scope.ofParams ["z", "y"]).resolve? name := by
  have hlower : ∃ bc, capturing.lower (.ofProgram capturing) = .ok bc := ⟨_, rfl⟩
  obtain ⟨bc, hlower⟩ := hlower
  obtain ⟨_, _, hlength, hiff⟩ := construction_eq_iff hlower
    List.mem_cons_self (List.mem_cons_of_mem _ List.mem_cons_self)
    (FunDecl.has_returned rfl rfl) (FunDecl.has_returned rfl rfl)
  -- The codes differ in the slot that is loaded.
  have hne : captureCode 0 ≠ captureCode 1 := by decide
  exact ⟨bc, hlower, hlength, hne, fun hall => hne (hiff.2 hall)⟩

/-- Constructions of one record type in a compiled program need not have the same code. -/
theorem Program.construction_ne :
    ∃ bc, capturing.lower (.ofProgram capturing) = .ok bc ∧
      ∃ f ∈ capturing.functions, ∃ g ∈ capturing.functions, ∃ scope scope' c c',
        f.Has (.ofProgram capturing) capturing.types ⟨.expression (.new "T"), 0, scope, c⟩ ∧
        g.Has (.ofProgram capturing) capturing.types ⟨.expression (.new "T"), 0, scope', c'⟩ ∧
        c ≠ c' := by
  refine ⟨_, rfl, _, List.mem_cons_self, _, List.mem_cons_of_mem _ List.mem_cons_self,
    Scope.ofParams ["y"], Scope.ofParams ["z", "y"], captureCode 0, captureCode 1,
    ?_, ?_, by decide⟩
  · exact FunDecl.has_returned rfl rfl
  · exact FunDecl.has_returned rfl rfl

end RecordMachine
