import RecordMachine.Proofs.Discipline.Marks
import RecordMachine.Proofs.Lowering.Blueprints
import RecordMachine.Proofs.Lowering.Scoping

/-!
# Lowered code is marked

By induction on the shape of the code. An expression leaves one operand more and all slots as they
were; a statement starts and ends without operands, and behind it there are slots for all variables
that are then visible. What a block declares is forgotten where it is closed, so that the branches
of a conditional statement and the rounds of a loop agree where they meet.
-/

namespace RecordMachine

section Expressions

variable {ctx : Context} {scope : Scope}

/-- Code of one instruction that does not jump. -/
theorem Marked.single {arity : String → Option Nat} {base : Nat} {entry exit : Mark}
    {i : Instruction} (happlies : i.Applies arity entry) (hstraight : i.jumpTarget? = none)
    (hexit : i.after arity entry = exit) : Marked arity base entry [i] exit := by
  refine .cons happlies hstraight ?_
  rw [hexit]
  exact .nil exit

/-- A slot can be loaded where there are more slots than its number. -/
theorem Instruction.applies_load {arity : String → Option Nat} {k : Mark} {slot : Nat}
    (h : slot < k.reach) : (Instruction.load slot).Applies arity k where
  operand := rfl
  enough := Nat.zero_le _
  loaded := by
    rintro _ _ ⟨⟩
    exact h
  returned := fun hret => nomatch hret
  known := fun _ hcall => nomatch hcall

/-- The code of a built-in function takes its arguments and leaves its value. -/
theorem marked_builtin {arity : String → Option Nat} {base depth reach : Nat} {name : String}
    {b : Builtin} (h : Builtin.find? name = some b) :
    Marked arity base ⟨depth + b.arity, reach⟩ b.code ⟨depth + 1, reach⟩ := by
  unfold Builtin.find? at h
  split at h
  case h_1 =>
    -- Printing leaves nothing, and nil is pushed in its place.
    cases h
    refine .cons (Instruction.applies_of_isOrdinary rfl rfl (Nat.le_add_left 1 depth)) rfl ?_
    exact .single (Instruction.applies_of_isOrdinary rfl rfl (Nat.zero_le _)) rfl rfl
  case h_11 => cases h
  all_goals
    cases h
    exact .single (Instruction.applies_of_isOrdinary rfl rfl (Nat.le_add_left _ depth)) rfl rfl

/-- Each field access takes an object and leaves the value of the field. Induction on the path. -/
theorem marked_fields {arity : String → Option Nat} {base depth reach : Nat}
    (fields : List String) :
    Marked arity base ⟨depth + 1, reach⟩ (fields.map .getField) ⟨depth + 1, reach⟩ := by
  induction fields generalizing base with
  | nil => exact .nil _
  | cons field fields ih =>
    exact .cons (Instruction.applies_of_isOrdinary rfl rfl (Nat.le_add_left 1 depth)) rfl ih

theorem marked_unary {arity : String → Option Nat} {base depth reach : Nat} (op : UnaryOp) :
    Marked arity base ⟨depth + 1, reach⟩ [.plain op.opcode] ⟨depth + 1, reach⟩ := by
  cases op <;>
    exact .single (Instruction.applies_of_isOrdinary rfl rfl (Nat.le_add_left 1 depth)) rfl rfl

theorem marked_binary {arity : String → Option Nat} {base depth reach : Nat} (op : BinaryOp) :
    Marked arity base ⟨depth + 1 + 1, reach⟩ [.plain op.opcode] ⟨depth + 1, reach⟩ := by
  cases op <;>
    exact .single (Instruction.applies_of_isOrdinary rfl rfl (Nat.le_add_left 2 depth)) rfl rfl

/-- A call takes as many operands as the table says, and its value is counted where it returns. -/
theorem marked_call {arity : String → Option Nat} {base depth reach count : Nat} {name : String}
    (h : arity name = some count) :
    Marked arity base ⟨depth + count, reach⟩ [.call name] ⟨depth + 1, reach⟩ := by
  have hdemand : (Instruction.call name).demand arity = count := by
    show (arity name).getD 0 = count
    rw [h]
    rfl
  have happlies : (Instruction.call name).Applies arity ⟨depth + count, reach⟩ := by
    refine ⟨rfl, ?_, (fun _ hload => nomatch hload), (fun hret => nomatch hret), ?_⟩
    · rw [hdemand]
      exact Nat.le_add_left count depth
    · rintro _ _ ⟨⟩
      rw [h]
      rfl
  refine .single happlies rfl ?_
  show (⟨depth + count - (Instruction.call name).demand arity + 1, reach⟩ : Mark) = _
  rw [hdemand, Nat.add_sub_cancel]

mutual

/-- The code of an expression leaves one operand more, and touches neither the operands below nor
the slots. Induction on the shape of the code. -/
theorem ExprCode.marked (hord : scope.Orderly) : ∀ {e : Expr} {c : Code}, ExprCode ctx scope e c →
    ∀ {base depth : Nat},
      Marked ctx.table.arity? base ⟨depth, scope.reach⟩ c ⟨depth + 1, scope.reach⟩
  | _, _, .literal l, base, depth =>
    .single (Instruction.applies_of_isOrdinary rfl rfl (Nat.zero_le _)) rfl rfl
  | _, _, .path hslot, base, depth =>
    .cons (Instruction.applies_load (hord.lt_reach_of_resolve? hslot)) rfl (marked_fields _)
  | _, _, .new hlayout hinits, base, depth =>
    .cons (Instruction.applies_of_isOrdinary rfl rfl (Nat.zero_le _)) rfl (hinits.marked hord)
  | _, _, .call hcallee hargs, base, depth => by
    refine .append (hargs.marked hord) ?_
    rcases Context.calleeCode_cases hcallee with ⟨b, hb, harity, rfl⟩ | ⟨_, harity, rfl⟩
    · rw [← harity]
      exact marked_builtin hb
    · exact marked_call harity
  | _, _, .unary he, base, depth => .append (he.marked hord) (marked_unary _)
  | _, _, .binary hleft hright, base, depth =>
    .append (.append (hleft.marked hord) (hright.marked hord)) (marked_binary _)
  | _, _, .group he, base, depth => he.marked hord
termination_by structural _ _ h => h

/-- The arguments of a call leave one operand each. -/
theorem ArgsCode.marked (hord : scope.Orderly) : ∀ {es : List Expr} {c : Code},
    ArgsCode ctx scope es c → ∀ {base depth : Nat},
      Marked ctx.table.arity? base ⟨depth, scope.reach⟩ c ⟨depth + es.length, scope.reach⟩
  | _, _, .nil, base, depth => .nil _
  | _, _, .cons he hrest, base, depth => by
    refine .append (he.marked hord) ?_
    rw [List.length_cons, ← Nat.add_assoc, Nat.add_right_comm]
    exact hrest.marked hord
termination_by structural _ _ h => h

/-- Giving its fields their initial values keeps an object on top: it is copied, and the copy is
taken with the value. -/
theorem FieldsCode.marked (hord : scope.Orderly) : ∀ {fields : List VarDecl} {c : Code},
    FieldsCode ctx scope fields c → ∀ {base depth : Nat},
      Marked ctx.table.arity? base ⟨depth + 1, scope.reach⟩ c ⟨depth + 1, scope.reach⟩
  | _, _, .nil, base, depth => .nil _
  | _, _, .cons hinit hrest, base, depth => by
    refine .cons (Instruction.applies_of_isOrdinary rfl rfl (Nat.le_add_left 1 depth)) rfl ?_
    refine .append (hinit.marked hord) ?_
    exact .cons (Instruction.applies_of_isOrdinary rfl rfl (Nat.le_add_left 2 (depth + 1))) rfl
      (hrest.marked hord)
termination_by structural _ _ h => h

end

end Expressions

/-! ## Statements -/

section Statements

variable {ctx : Context}

/-- Storing to a slot that is there takes an operand and changes nothing else that a mark says. -/
theorem marked_store_of_lt {arity : String → Option Nat} {base depth reach slot : Nat}
    (h : slot < reach) :
    Marked arity base ⟨depth + 1, reach⟩ [.store slot] ⟨depth, reach⟩ := by
  refine .single (Instruction.applies_of_isOrdinary rfl rfl (Nat.le_add_left 1 depth)) rfl ?_
  show (⟨depth, max reach (slot + 1)⟩ : Mark) = _
  rw [Nat.max_eq_left h]

/-- An assignment takes its value: into a slot, or into a field of the object that the path leads
to. -/
theorem marked_assignCode {arity : String → Option Nat} {base reach slot : Nat} (h : slot < reach)
    (fields : List String) :
    Marked arity base ⟨1, reach⟩ (assignCode slot fields) ⟨0, reach⟩ := by
  unfold assignCode
  split
  · exact marked_store_of_lt h
  · refine .cons (Instruction.applies_load h) rfl (.append (marked_fields _) ?_)
    -- The object on top and the value below it change places, and both are taken.
    refine .cons (Instruction.applies_of_isOrdinary rfl rfl (Nat.le_refl 2)) rfl ?_
    exact .single (Instruction.applies_of_isOrdinary rfl rfl (Nat.le_refl 2)) rfl rfl

/-- The test of a counting loop leaves a truth value. -/
theorem marked_testCode {scope : Scope} (hord : scope.Orderly) {stop : Expr} {last : Code}
    (hstop : ExprCode ctx scope stop last) (direction : Direction) {slot base : Nat}
    (hslot : slot < scope.reach) :
    Marked ctx.table.arity? base ⟨0, scope.reach⟩ (direction.testCode slot last)
      ⟨1, scope.reach⟩ := by
  refine .cons (Instruction.applies_load hslot) rfl (.append (hstop.marked hord) ?_)
  cases direction <;>
    exact .single (Instruction.applies_of_isOrdinary rfl rfl (Nat.le_refl 2)) rfl rfl

/-- Moving the variable of a counting loop on leaves no operand behind. -/
theorem marked_moveCode {arity : String → Option Nat} {base reach slot : Nat}
    (direction : Direction) (hslot : slot < reach) :
    Marked arity base ⟨0, reach⟩ (direction.moveCode slot) ⟨0, reach⟩ := by
  refine .cons (Instruction.applies_load hslot) rfl ?_
  refine .cons (Instruction.applies_of_isOrdinary rfl rfl (Nat.zero_le _)) rfl ?_
  cases direction <;>
    exact .cons (Instruction.applies_of_isOrdinary rfl rfl (Nat.le_refl 2)) rfl
      (marked_store_of_lt hslot)

/-- A counting loop: storing the first value of its variable makes room for `inner` slots, and a
round leaves at least as many. -/
theorem Marked.forCode {arity : String → Option Nat} {base again reach inner reach' slot : Nat}
    {direction : Direction} {start stop body : Code} (hagain : again = base + start.length + 1)
    (hstart : Marked arity base ⟨0, reach⟩ start ⟨1, reach⟩) (hinner : max reach (slot + 1) = inner)
    (htest : Marked arity again ⟨0, inner⟩ (direction.testCode slot stop) ⟨1, inner⟩)
    (hbody : Marked arity (again + (stop.length + 2) + 1) ⟨0, inner⟩ body ⟨0, reach'⟩)
    (hreach : inner ≤ reach') :
    Marked arity base ⟨0, reach⟩ (forCode direction slot again start stop body) ⟨0, reach⟩ := by
  have hslot : slot < reach' := by omega
  have hround : Marked arity (again + (direction.testCode slot stop).length + 1) ⟨0, inner⟩
      (body ++ direction.moveCode slot) ⟨0, reach'⟩ := by
    rw [Direction.length_testCode]
    exact .append hbody (marked_moveCode direction hslot)
  have hrounds := Marked.whileCode htest hround hreach
  rw [forCode_eq_whileCode]
  refine .append hstart ?_
  refine .cons (Instruction.applies_of_isOrdinary rfl rfl (Nat.le_refl 1)) rfl ?_
  rw [← hagain]
  show Marked arity again ⟨0, max reach (slot + 1)⟩ _ _
  rw [hinner]
  -- Behind the loop fewer variables are visible than inside of it.
  exact hrounds.weaken (.refl _) ⟨rfl, by show reach ≤ inner; omega⟩

/-- A return leaves nothing, though nothing comes after it. -/
theorem marked_ret {arity : String → Option Nat} {base reach : Nat} :
    Marked arity base ⟨1, reach⟩ [.plain .ret] ⟨0, reach⟩ := by
  refine .single ⟨rfl, Nat.le_refl 1, ?_, ?_, ?_⟩ rfl rfl
  · exact fun _ hload => nomatch hload
  · exact fun _ => rfl
  · exact fun _ hcall => nomatch hcall

mutual

/-- The code of a statement starts and ends without operands, and with slots for all variables that
are visible before and after it. -/
theorem StmtCode.marked :
    ∀ {base : Nat} {scope : Scope} {s : Stmt} {c : Code} {scope' : Scope},
      StmtCode ctx base scope s c scope' → scope.Orderly →
        Marked ctx.table.arity? base ⟨0, scope.reach⟩ c ⟨0, scope'.reach⟩
  | _, scope, _, _, _, .declare hinit, hord => by
    refine .append (hinit.marked hord) ?_
    refine .single (Instruction.applies_of_isOrdinary rfl rfl (Nat.le_refl 1)) rfl ?_
    -- The new variable has the next slot, which is beyond the reach of all others.
    show (⟨0, max scope.reach (scope.nextSlot + 1)⟩ : Mark) = _
    rw [Nat.max_eq_right (Nat.le_succ_of_le hord.reach_le_nextSlot)]
    rfl
  | _, _, _, _, _, .assign hvalue hslot, hord =>
    .append (hvalue.marked hord) (marked_assignCode (hord.lt_reach_of_resolve? hslot) _)
  | _, _, _, _, _, .ifChain hchain, hord => by
    refine .append (hchain.marked hord rfl) ?_
    exact .single (Instruction.applies_of_isOrdinary rfl rfl (Nat.zero_le _)) rfl rfl
  | _, _, _, _, _, .whileLoop hcond hbody, hord => by
    -- The next round starts with at least the slots of the first, since the body only adds to them.
    obtain ⟨hgrows, hord'⟩ := hbody.grows hord.enter
    have hreach := Scope.reach_le_of_grows hgrows hord'
    rw [Scope.reach_congr (Scope.bindings_leave hord hgrows)]
    exact .whileCode (hcond.marked hord) (hbody.marked hord.enter) hreach
  | _, _, _, _, _, .forLoop hstart hcounter hstop hagain hbody, hord => by
    have hinner := hord.enter.counter hcounter
    obtain ⟨hgrows, hord'⟩ := hbody.grows hinner.enter
    have hblock := (Scope.Grows.counter hcounter).trans (.of_block hinner hgrows)
    have hslot := hinner.lt_reach_of_resolve? (Scope.resolve?_counter hcounter)
    have hreach := Scope.reach_le_of_grows hgrows hord'
    rw [Scope.reach_congr (Scope.bindings_leave hord hblock)]
    exact .forCode hagain (hstart.marked hord.enter) (hord.enter.reach_counter hcounter)
      (marked_testCode hinner hstop _ hslot) (hbody.marked hinner.enter) hreach
  | _, _, _, _, _, .retNil, hord =>
    .cons (Instruction.applies_of_isOrdinary rfl rfl (Nat.zero_le _)) rfl marked_ret
  | _, _, _, _, _, .ret he, hord => .append (he.marked hord) marked_ret
  | _, _, _, _, _, .delete hslot, hord => by
    have hlt := hord.lt_reach_of_resolve? hslot
    refine .cons (Instruction.applies_load hlt) rfl ?_
    refine .cons (Instruction.applies_of_isOrdinary rfl rfl (Nat.le_refl 1)) rfl ?_
    exact .cons (Instruction.applies_of_isOrdinary rfl rfl (Nat.zero_le _)) rfl
      (marked_store_of_lt hlt)
  | _, _, _, _, _, .call hcall, hord => by
    refine .append (hcall.marked hord) ?_
    exact .single (Instruction.applies_of_isOrdinary rfl rfl (Nat.le_refl 1)) rfl rfl
termination_by structural _ _ _ _ _ h => h

/-- Statements that follow each other meet without operands. The next one finds the slots of all
variables that are visible by then. -/
theorem SequenceCode.marked :
    ∀ {base : Nat} {scope : Scope} {body : List Stmt} {c : Code} {scope' : Scope},
      SequenceCode ctx base scope body c scope' → scope.Orderly →
        Marked ctx.table.arity? base ⟨0, scope.reach⟩ c ⟨0, scope'.reach⟩
  | _, _, _, _, _, .nil, _ => .nil _
  | _, _, _, _, _, .cons hs hrest, hord =>
    .append (hs.marked hord) (hrest.marked (hs.grows hord).2)
termination_by structural _ _ _ _ _ h => h

/-- Every branch leads to the landing place with as many slots as there were before all of them,
since what its block declares is forgotten. -/
theorem ChainCode.marked :
    ∀ {base : Nat} {scope : Scope} {landing : Nat} {chain : Chain} {c : Code} {scope' : Scope},
      ChainCode ctx base scope landing chain c scope' → scope.Orderly →
        landing = base + c.length →
        Marked ctx.table.arity? base ⟨0, scope.reach⟩ c ⟨0, scope'.reach⟩
  | _, _, _, _, _, _, .done, _, _ => .nil _
  | _, _, _, _, _, _, .otherwise hbody, hord, _ => by
    obtain ⟨hgrows, hord'⟩ := hbody.grows hord.enter
    have hreach := Scope.reach_le_of_grows hgrows hord'
    rw [Scope.reach_congr (Scope.bindings_leave hord hgrows)]
    exact (hbody.marked hord.enter).weaken (.refl _) ⟨rfl, hreach⟩
  | _, _, _, _, _, _, .branch hcond hbody hnext hrest, hord, hlanding => by
    obtain ⟨hgrows, hord'⟩ := hbody.grows hord.enter
    have hblock := Scope.Orderly.of_block hord hgrows
    have hsame := Scope.bindings_leave hord hgrows
    have hreach := Scope.reach_le_of_grows hgrows hord'
    -- The lengths say that the other branches end at the landing place.
    have hmeet := hlanding
    simp only [List.length_append, List.length_cons] at hmeet
    have hothers := hrest.marked hblock (by omega)
    rw [Scope.reach_congr (hrest.bindings_eq hblock), Scope.reach_congr hsame] at hothers
    rw [Scope.reach_congr (hrest.bindings_eq hblock), Scope.reach_congr hsame]
    exact .branch (hcond.marked hord) (hbody.marked hord.enter) hreach hnext hothers (by omega)
termination_by structural _ _ _ _ _ _ h => h

end

/-! ## Functions -/

/-- The code of a body with its last statement apart, at its place. Induction on the statements
before. -/
theorem SequenceCode.split_last {init : List Stmt} {last : Stmt} {base : Nat} {scope scope' : Scope}
    {c : Code} (h : SequenceCode ctx base scope (init ++ [last]) c scope') :
    ∃ c₁ c₂ mid, SequenceCode ctx base scope init c₁ mid ∧
      StmtCode ctx (base + c₁.length) mid last c₂ scope' ∧ c = c₁ ++ c₂ := by
  induction init generalizing base scope c with
  | nil =>
    cases h with
    | cons hs hrest =>
      cases hrest with
      | nil => exact ⟨[], _, scope, .nil, hs, by simp⟩
  | cons s init ih =>
    cases h with
    | cons hs hrest =>
      obtain ⟨c₁, c₂, mid, hinit, hlast, rfl⟩ := ih hrest
      rw [Nat.add_assoc, ← List.length_append] at hlast
      exact ⟨_ ++ c₁, c₂, mid, .cons hs hinit, hlast, by rw [List.append_assoc]⟩

/-- A return statement at the end: nothing is expected behind it. -/
theorem StmtCode.markedToEnd_ret {base : Nat} {scope scope' : Scope} {e : Option Expr} {c : Code}
    (h : StmtCode ctx base scope (.ret e) c scope') (hord : scope.Orderly) :
    MarkedToEnd ctx.table.arity? base ⟨0, scope.reach⟩ c := by
  cases h with
  | retNil =>
    have hpush : Marked ctx.table.arity? base ⟨0, scope.reach⟩ [.push .nil] ⟨1, scope.reach⟩ :=
      .single (Instruction.applies_of_isOrdinary rfl rfl (Nat.zero_le _)) rfl rfl
    exact hpush.append_end RecordMachine.markedToEnd_ret
  | ret he => exact (he.marked hord).append_end RecordMachine.markedToEnd_ret

/-- The code of a function starts without operands and with its arguments in their slots, and is not
left behind its last instruction. -/
theorem FunDecl.markedToEnd {f : FunDecl} {table : TypeTable} {types : List TypeDecl}
    {b : Blueprint} (h : f.lower table types = .ok b) :
    MarkedToEnd table.arity? 0 ⟨0, b.params⟩ b.code.toList := by
  obtain ⟨c, scope', hbody, rfl⟩ := FunDecl.lower_eq_ok h
  have hord := Scope.orderly_ofParams (f.params.map Param.name)
  -- The arguments fill at least the slots of the parameters that are visible.
  have hentry : (⟨0, f.params.length⟩ : Mark).Feeds
      ⟨0, (Scope.ofParams (f.params.map Param.name)).reach⟩ := by
    have hle := hord.reach_le_nextSlot
    rw [Scope.ofParams_eq, List.length_map] at hle ⊢
    exact ⟨rfl, hle⟩
  show MarkedToEnd table.arity? 0 ⟨0, f.params.length⟩ (c ++ closingCode f.body)
  unfold closingCode
  split
  · -- The last statement is a return, and nothing follows it.
    next hreturn =>
    obtain ⟨last, hlast, hisReturn⟩ := (Option.any_eq_true _ _).1 hreturn
    obtain ⟨init, hinit⟩ := List.getLast?_eq_some_iff.1 hlast
    rw [hinit] at hbody
    obtain ⟨c₁, c₂, mid, hfirst, hend, rfl⟩ := hbody.split_last
    cases last with
    | ret e =>
      rw [List.append_nil]
      refine ((hfirst.marked hord).weaken hentry (.refl _)).append_end ?_
      exact hend.markedToEnd_ret (hfirst.grows hord).2
    | _ => cases hisReturn
  · refine ((hbody.marked hord).weaken hentry (.refl _)).append_end ?_
    exact StmtCode.markedToEnd_ret (.retNil) (hbody.grows hord).2

/-- Every index of a compiled function has a mark, and its instructions fit the marks. -/
theorem FunDecl.exists_marking {f : FunDecl} {table : TypeTable} {types : List TypeDecl}
    {b : Blueprint} (h : f.lower table types = .ok b) :
    ∃ marks : Marking, (∀ pc, (marks pc).isSome → pc < b.code.size) ∧
      marks.Accepts 0 ⟨0, b.params⟩ ∧ marks.Suits table.arity? 0 b.code.toList := by
  obtain ⟨ms, hlen, hms⟩ := FunDecl.markedToEnd h
  refine ⟨fun pc => ms[pc]?, ?_, hms _ ?_ ?_⟩
  · intro pc hsome
    obtain ⟨k, hk⟩ := Option.isSome_iff_exists.1 hsome
    have hlt : pc < ms.length := (List.getElem?_eq_some_iff.1 hk).1
    rw [hlen, Array.length_toList] at hlt
    exact hlt
  · intro j k hj
    rw [Nat.zero_add]
    exact hj
  · rw [Nat.zero_add, ← hlen]
    exact List.getElem?_eq_none (Nat.le_refl _)

end Statements

end RecordMachine
