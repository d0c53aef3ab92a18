import RecordMachine.Proofs.Lowering.Blueprints
import RecordMachine.Proofs.Tree.Traversal

/-!
# The instructions of lowered code

Lowering makes few kinds of instructions, and what an instruction carries comes from the program:
its literals, the names of its paths and calls, the fields of its record types. `Emitted` lists
them, and `Program.emitted_of_lower` shows that a compiled program has no others. A condition on all
expressions of the program is passed on to the expressions that instructions come from.
-/

namespace RecordMachine

/-- The instructions that lowering makes of a program whose expressions all satisfy `ok`. -/
inductive Emitted (table : TypeTable) (types : List TypeDecl) (ok : Expr → Bool) :
    Instruction → Prop where
  | plain {op : Opcode} (hop : op.operandKind = none) : Emitted table types ok (.plain op)
  | literal {l : Literal} (hl : ok (.literal l) = true) : Emitted table types ok (.push l.value)
  /-- The result of what returns nothing else. -/
  | nil : Emitted table types ok (.push .nil)
  /-- The step of a counting loop. -/
  | one : Emitted table types ok (.push (.int 1))
  | load (slot : Nat) : Emitted table types ok (.load slot)
  | store (slot : Nat) : Emitted table types ok (.store slot)
  | jump (target : Nat) : Emitted table types ok (.jump target)
  | jumpIfFalse (target : Nat) : Emitted table types ok (.jumpIfFalse target)
  | call {name : String} {args : List Expr} (hcall : ok (.call name args) = true) :
      Emitted table types ok (.call name)
  | getField {names : List String} {field : String} (hpath : ok (.path names) = true)
      (hfield : field ∈ names) : Emitted table types ok (.getField field)
  | setField {names : List String} {field : String} (hpath : ok (.path names) = true)
      (hfield : field ∈ names) : Emitted table types ok (.setField field)
  | alloc {type : String} {names : List String} (hnames : table.fields? type = some names) :
      Emitted table types ok (.alloc names)
  /-- The initial value of a field. -/
  | init {d : TypeDecl} {field : VarDecl} (hd : d ∈ types) (hfield : field ∈ d.fields) :
      Emitted table types ok (.setField field.name)
  /-- Drops the result of a call that is a statement. -/
  | cleanUp :
      Emitted table types ok ((Instruction.plain .pop).withComment "clean up call return value")

/-- Code that has only such instructions. -/
def EmittedCode (table : TypeTable) (types : List TypeDecl) (ok : Expr → Bool) (c : Code) : Prop :=
  ∀ i ∈ c, Emitted table types ok i

/-! ## Pieces of code -/

namespace EmittedCode

variable {table : TypeTable} {types : List TypeDecl} {ok : Expr → Bool}
variable {i : Instruction} {c c' : Code}

theorem nil : EmittedCode table types ok [] := List.forall_mem_nil _

theorem cons (hi : Emitted table types ok i) (hc : EmittedCode table types ok c) :
    EmittedCode table types ok (i :: c) :=
  List.forall_mem_cons.2 ⟨hi, hc⟩

theorem single (hi : Emitted table types ok i) : EmittedCode table types ok [i] := .cons hi .nil

theorem append (hc : EmittedCode table types ok c) (hc' : EmittedCode table types ok c') :
    EmittedCode table types ok (c ++ c') :=
  List.forall_mem_append.2 ⟨hc, hc'⟩

/-- The names of a path become instructions that read fields. -/
theorem fields {names fields : List String} (hpath : ok (.path names) = true)
    (hfields : ∀ f ∈ fields, f ∈ names) : EmittedCode table types ok (fields.map .getField) := by
  intro i hi
  obtain ⟨field, hmem, rfl⟩ := List.mem_map.1 hi
  exact .getField hpath (hfields field hmem)

/-- The code of a builtin is its instruction, for `print` with the nil that it returns. -/
theorem builtin {name : String} {b : Builtin} (hb : Builtin.find? name = some b) :
    EmittedCode table types ok b.code := by
  unfold Builtin.find? at hb
  split at hb
  case h_1 =>
    cases hb
    exact .cons (.plain rfl) (.single .nil)
  case h_11 => cases hb
  all_goals
    cases hb
    exact .single (.plain rfl)

/-- An assignment stores in the slot, or sets the last field of the path and reads those before. -/
theorem assignCode {base : String} {fields : List String}
    (hpath : ok (.path (base :: fields)) = true) (slot : Nat) :
    EmittedCode table types ok (assignCode slot fields) := by
  unfold RecordMachine.assignCode
  split
  · exact .single (.store slot)
  · next last hlast =>
    have hmem : last ∈ base :: fields := List.mem_cons_of_mem _ (List.mem_of_getLast? hlast)
    have hinner : ∀ f ∈ fields.dropLast, f ∈ base :: fields :=
      fun f hf => List.mem_cons_of_mem _ ((List.dropLast_sublist fields).mem hf)
    exact .cons (.load slot)
      (.append (.fields hpath hinner) (.cons (.plain rfl) (.single (.setField hpath hmem))))

/-- A branch ends with a jump behind the chain, unless it is the last one. -/
theorem exitCode (rest : Chain) (landing : Nat) :
    EmittedCode table types ok (rest.exitCode landing) := by
  unfold Chain.exitCode
  split
  · exact .nil
  · exact .single (.jump landing)

/-- A body that may come to its end is closed by returning nil. -/
theorem closingCode (body : List Stmt) : EmittedCode table types ok (closingCode body) := by
  unfold RecordMachine.closingCode
  split
  · exact .nil
  · exact .cons .nil (.single (.plain rfl))

/-- A loop has the instructions of its parts, two jumps and the place where it is left. -/
theorem whileCode {test body : Code} (htest : EmittedCode table types ok test)
    (hbody : EmittedCode table types ok body) (base : Nat) :
    EmittedCode table types ok (whileCode base test body) := by
  unfold RecordMachine.whileCode
  exact .append htest
    (.cons (.jumpIfFalse _) (.append hbody (.cons (.jump base) (.single (.plain rfl)))))

/-- A counting loop has the instructions of its parts, and those for its counter. -/
theorem forCode {start stop body : Code} (hstart : EmittedCode table types ok start)
    (hstop : EmittedCode table types ok stop) (hbody : EmittedCode table types ok body)
    (direction : Direction) (slot again : Nat) :
    EmittedCode table types ok (forCode direction slot again start stop body) := by
  have htest : EmittedCode table types ok (direction.testCode slot stop) := by
    refine .cons (.load slot) (.append hstop (.single (.plain ?_)))
    cases direction <;> rfl
  have hmove : EmittedCode table types ok (direction.moveCode slot) := by
    refine .cons (.load slot) (.cons .one (.cons (.plain ?_) (.single (.store slot))))
    cases direction <;> rfl
  -- Behind the start it is a loop whose test compares the counter and whose body moves it at the
  -- end.
  rw [forCode_eq_whileCode]
  exact .append hstart (.cons (.store slot) (htest.whileCode (.append hbody hmove) again))

end EmittedCode

/-! ## Lowered code -/

/-- The declaration of a type is one of those of the program. -/
theorem Context.mem_of_decl? {ctx : Context} {type : String} {d : TypeDecl}
    (h : ctx.decl? type = some d) : d ∈ ctx.types :=
  List.mem_reverse.1 (List.mem_of_find?_eq_some h)

section Expressions

variable {ctx : Context} {scope : Scope} {ok : Expr → Bool}

mutual

/-- The code of an expression, by induction on how it was lowered. -/
theorem ExprCode.emitted (htypes : ∀ d ∈ ctx.types, d.all ok = true) :
    ∀ {e : Expr} {c : Code}, ExprCode ctx scope e c → e.all ok = true →
      EmittedCode ctx.table ctx.types ok c
  | _, _, .literal _, h => .single (.literal h)
  | _, _, .path _, h => .cons (.load _) (.fields h fun _ => List.mem_cons_of_mem _)
  | _, _, .new hlayout hinits, _ => by
    -- The initial values stand in the declaration of the type, not in the expression.
    obtain ⟨d, hnames, hdecl, hfields⟩ := Context.layout_cases hlayout
    have hd : d ∈ ctx.types := Context.mem_of_decl? hdecl
    refine .cons (.alloc hnames) (hinits.emitted htypes ?_)
    intro field hfield
    rw [← hfields] at hfield
    exact ⟨.init hd hfield, List.all_eq_true.1 (htypes d hd) field hfield⟩
  | _, _, .call hcallee hargs, h => by
    rw [Expr.all, Bool.and_eq_true] at h
    refine .append (hargs.emitted htypes h.2) ?_
    rcases Context.calleeCode_cases hcallee with ⟨b, hb, _, rfl⟩ | ⟨_, _, rfl⟩
    · exact .builtin hb
    · exact .single (.call h.1)
  | _, _, @ExprCode.unary _ _ op _ _ he, h => by
    rw [Expr.all, Bool.and_eq_true] at h
    refine .append (he.emitted htypes h.2) (.single (.plain ?_))
    cases op <;> rfl
  | _, _, @ExprCode.binary _ _ op _ _ _ _ hleft hright, h => by
    rw [Expr.all, Bool.and_eq_true, Bool.and_eq_true] at h
    refine .append (.append (hleft.emitted htypes h.1.2) (hright.emitted htypes h.2))
      (.single (.plain ?_))
    cases op <;> rfl
  | _, _, .group he, h => by
    rw [Expr.all, Bool.and_eq_true] at h
    exact he.emitted htypes h.2
termination_by structural _ _ h => h

theorem ArgsCode.emitted (htypes : ∀ d ∈ ctx.types, d.all ok = true) :
    ∀ {es : List Expr} {c : Code}, ArgsCode ctx scope es c → Expr.allIn ok es = true →
      EmittedCode ctx.table ctx.types ok c
  | _, _, .nil, _ => .nil
  | _, _, .cons he hrest, h => by
    rw [Expr.allIn, Bool.and_eq_true] at h
    exact .append (he.emitted htypes h.1) (hrest.emitted htypes h.2)
termination_by structural _ _ h => h

/-- The code of initial values. Each sets a field that belongs to a declaration of the program. -/
theorem FieldsCode.emitted (htypes : ∀ d ∈ ctx.types, d.all ok = true) :
    ∀ {fields : List VarDecl} {c : Code}, FieldsCode ctx scope fields c →
      (∀ f ∈ fields, Emitted ctx.table ctx.types ok (.setField f.name) ∧ f.init.all ok = true) →
      EmittedCode ctx.table ctx.types ok c
  | _, _, .nil, _ => .nil
  | _, _, .cons hinit hrest, h => by
    rw [List.forall_mem_cons] at h
    exact .cons (.plain rfl) (.append (hinit.emitted htypes h.1.2)
      (.cons h.1.1 (hrest.emitted htypes h.2)))
termination_by structural _ _ h => h

end

end Expressions

section Statements

variable {ctx : Context} {ok : Expr → Bool}

mutual

/-- The code of a statement, by induction on how it was lowered. -/
theorem StmtCode.emitted (htypes : ∀ d ∈ ctx.types, d.all ok = true) :
    ∀ {base : Nat} {scope : Scope} {s : Stmt} {c : Code} {scope' : Scope},
      StmtCode ctx base scope s c scope' → s.all ok = true → EmittedCode ctx.table ctx.types ok c
  | _, _, _, _, _, .declare hinit, h => .append (hinit.emitted htypes h) (.single (.store _))
  | _, _, _, _, _, .assign hvalue _, h => by
    rw [Stmt.all, Expr.all, Bool.and_eq_true] at h
    exact .append (hvalue.emitted htypes h.2) (.assignCode h.1 _)
  | _, _, _, _, _, .ifChain hchain, h =>
    .append (hchain.emitted htypes h) (.single (.plain rfl))
  | _, _, _, _, _, .whileLoop hcond hbody, h => by
    rw [Stmt.all, Bool.and_eq_true] at h
    exact (hcond.emitted htypes h.1).whileCode (hbody.emitted htypes h.2) _
  | _, _, _, _, _, .forLoop hstart _ hstop _ hbody, h => by
    rw [Stmt.all, Bool.and_eq_true, Bool.and_eq_true] at h
    exact (hstart.emitted htypes h.1.1).forCode (hstop.emitted htypes h.1.2)
      (hbody.emitted htypes h.2) _ _ _
  | _, _, _, _, _, .retNil, _ => .cons .nil (.single (.plain rfl))
  | _, _, _, _, _, .ret he, h => .append (he.emitted htypes h) (.single (.plain rfl))
  | _, _, _, _, _, .delete _, _ =>
    .cons (.load _) (.cons (.plain rfl) (.cons .nil (.single (.store _))))
  | _, _, _, _, _, .call hcall, h => .append (hcall.emitted htypes h) (.single .cleanUp)
termination_by structural _ _ _ _ _ h => h

/-- The code of the statements of a body, one after the other. -/
theorem SequenceCode.emitted (htypes : ∀ d ∈ ctx.types, d.all ok = true) :
    ∀ {base : Nat} {scope : Scope} {body : List Stmt} {c : Code} {scope' : Scope},
      SequenceCode ctx base scope body c scope' → Stmt.allIn ok body = true →
        EmittedCode ctx.table ctx.types ok c
  | _, _, _, _, _, .nil, _ => .nil
  | _, _, _, _, _, .cons hs hrest, h => by
    rw [Stmt.allIn, Bool.and_eq_true] at h
    exact .append (hs.emitted htypes h.1) (hrest.emitted htypes h.2)
termination_by structural _ _ _ _ _ h => h

/-- The code of the branches of a chain, one after the other. -/
theorem ChainCode.emitted (htypes : ∀ d ∈ ctx.types, d.all ok = true) :
    ∀ {base : Nat} {scope : Scope} {landing : Nat} {chain : Chain} {c : Code} {scope' : Scope},
      ChainCode ctx base scope landing chain c scope' → chain.all ok = true →
        EmittedCode ctx.table ctx.types ok c
  | _, _, _, _, _, _, .done, _ => .nil
  | _, _, _, _, _, _, .otherwise hbody, h => hbody.emitted htypes h
  | _, _, _, _, _, _, .branch hcond hbody _ hrest, h => by
    rw [Chain.all, Bool.and_eq_true, Bool.and_eq_true] at h
    exact .append (hcond.emitted htypes h.1.1) (.cons (.jumpIfFalse _)
      (.append (.append (hbody.emitted htypes h.1.2) (.exitCode _ _)) (hrest.emitted htypes h.2)))
termination_by structural _ _ _ _ _ _ h => h

end

end Statements

/-- A compiled program has no instructions but those that lowering makes. -/
theorem Program.emitted_of_lower {p : Program} {table : TypeTable} {bc : Bytecode}
    {ok : Expr → Bool} (hall : p.all ok = true) (hlower : p.lower table = .ok bc) {b : Blueprint}
    (hb : b ∈ bc.blueprints) : EmittedCode table p.types ok b.code.toList := by
  rw [Program.all, Bool.and_eq_true] at hall
  obtain ⟨f, hf, hlowered⟩ := Program.exists_of_mem_blueprints hlower hb
  obtain ⟨c, scope', hbody, rfl⟩ := FunDecl.lower_eq_ok hlowered
  have hcode : EmittedCode table p.types ok c :=
    hbody.emitted (List.all_eq_true.1 hall.1) (List.all_eq_true.1 hall.2 f hf)
  exact .append hcode (.closingCode f.body)

end RecordMachine
