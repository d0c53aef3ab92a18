import Mathlib.Data.List.Nodup
import RecordMachine.Proofs.Loops.Rounds
import RecordMachine.Proofs.Lowering.Lexical

/-!
# Bodies that leave the counter alone

`CountingLoop.Regular` asks of a run that the body does not set the counter. Whether it does can be
read off the program: `Stmt.sets name s` says that `s` may set the variable that `name` stands for
where `s` begins, by an assignment, by deleting an object or as the counter of another loop. A
declaration of the same name hides the variable, and what follows it sets another one.

The code of a statement that does not set a variable has no instruction that sets its slot
(`StmtCode.spares`). Slots are given out once, so that a slot can only be set through a name which
stands for it: declarations get later slots, and a name that stands for the slot behind some
statements has stood for it before them (`Scope.resolve?_of_grows`).

With such a body, `CountingLoop.Completes`, which does not speak of the counter, is enough for a
loop to be regular (`CountingLoop.Completes.regular`).
-/

namespace RecordMachine

/-! ## What a statement sets -/

/-- From the statement on the name stands for another variable. -/
def Stmt.hides (name : String) : Stmt → Bool
  | .declare decl => decl.name == name
  | _ => false

mutual

/-- The statement may set the variable that the name stands for. -/
def Stmt.sets (name : String) : Stmt → Bool
  | .assign [target] _ => target == name
  | .ifChain chain => chain.sets name
  | .whileLoop _ body => Stmt.setsIn name body
  | .forLoop var _ _ _ body => var == name || Stmt.setsIn name body
  | .delete target => target == name
  | _ => false

def Stmt.setsIn (name : String) : List Stmt → Bool
  | [] => false
  | s :: rest => s.sets name || (!s.hides name && Stmt.setsIn name rest)

def Chain.sets (name : String) : Chain → Bool
  | .done => false
  | .otherwise body => Stmt.setsIn name body
  | .branch _ body rest => Stmt.setsIn name body || rest.sets name

end

/-! ## Code that spares a slot -/

/-- No instruction of the code sets the slot. -/
def Spares (slot : Nat) (c : Code) : Prop := ∀ i ∈ c, ¬i.Assigns slot

namespace Spares

variable {slot : Nat} {i : Instruction} {c c' : Code}

theorem nil : Spares slot [] := List.forall_mem_nil _

theorem append (hc : Spares slot c) (hc' : Spares slot c') : Spares slot (c ++ c') :=
  List.forall_mem_append.2 ⟨hc, hc'⟩

/-- Only an instruction that stores can set a slot. -/
theorem other (hop : i.opcode ≠ .store) (hc : Spares slot c) : Spares slot (i :: c) :=
  List.forall_mem_cons.2 ⟨fun h => hop h.1, hc⟩

/-- An instruction without an operand names no slot. -/
theorem plain (op : Opcode) (hc : Spares slot c) : Spares slot (.plain op :: c) :=
  List.forall_mem_cons.2 ⟨fun h => (nomatch h.2), hc⟩

theorem store {target : Nat} (hne : target ≠ slot) (hc : Spares slot c) :
    Spares slot (.store target :: c) :=
  List.forall_mem_cons.2 ⟨fun h => hne (Option.some.inj h.2), hc⟩

/-- Reading fields sets no slot, however long the path is. -/
theorem fields (names : List String) : Spares slot (names.map .getField) := by
  induction names with
  | nil => exact .nil
  | cons name rest ih => exact .other nofun ih

/-- The code of a builtin is one instruction or two, and none of them stores. -/
theorem builtin {name : String} {b : Builtin} (hb : Builtin.find? name = some b) :
    Spares slot b.code := by
  unfold Builtin.find? at hb
  split at hb
  case h_1 =>
    cases hb
    exact .plain _ (.other nofun .nil)
  case h_11 => cases hb
  all_goals
    cases hb
    exact .plain _ .nil

/-- Assigning to a field of an object that a variable holds does not set the variable. -/
theorem assignCode {target : Nat} {fields : List String} (hne : fields = [] → target ≠ slot) :
    Spares slot (assignCode target fields) := by
  unfold RecordMachine.assignCode
  split
  · next hlast => exact .store (hne (List.getLast?_eq_none_iff.1 hlast)) .nil
  · exact .other nofun (.append (.fields _) (.plain _ (.other nofun .nil)))

theorem exitCode (rest : Chain) (landing : Nat) : Spares slot (rest.exitCode landing) := by
  unfold Chain.exitCode
  split
  · exact .nil
  · exact .other nofun .nil

/-- A loop adds only jumps and a landing place to its test and its body. -/
theorem whileCode {test body : Code} (htest : Spares slot test) (hbody : Spares slot body)
    (base : Nat) : Spares slot (whileCode base test body) :=
  .append htest (.other nofun (.append hbody (.other nofun (.plain _ .nil))))

/-- A counting loop sets its counter and what its parts set. -/
theorem forCode {start stop body : Code} {counter : Nat} (hstart : Spares slot start)
    (hstop : Spares slot stop) (hbody : Spares slot body) (hne : counter ≠ slot)
    (direction : Direction) (again : Nat) :
    Spares slot (forCode direction counter again start stop body) := by
  have htest : Spares slot (direction.testCode counter stop) :=
    .other nofun (.append hstop (.plain _ .nil))
  have hmove : Spares slot (direction.moveCode counter) :=
    .other nofun (.other nofun (.plain _ (.store hne .nil)))
  rw [forCode_eq_whileCode]
  exact .append hstart (.store hne (htest.whileCode (.append hbody hmove) again))

end Spares

/-! ## Expressions -/

section Expressions

variable {ctx : Context} {scope : Scope} {slot : Nat}

mutual

/-- An expression sets no slot at all. -/
theorem ExprCode.spares : ∀ {e : Expr} {c : Code}, ExprCode ctx scope e c → Spares slot c
  | _, _, .literal _ => .other nofun .nil
  | _, _, .path _ => .other nofun (.fields _)
  | _, _, .new _ hinits => .other nofun hinits.spares
  | _, _, .call hcallee hargs => by
    refine .append hargs.spares ?_
    rcases Context.calleeCode_cases hcallee with ⟨b, hb, _, rfl⟩ | ⟨_, _, rfl⟩
    · exact .builtin hb
    · exact .other nofun .nil
  | _, _, .unary he => .append he.spares (.plain _ .nil)
  | _, _, .binary hleft hright =>
    .append (.append hleft.spares hright.spares) (.plain _ .nil)
  | _, _, .group he => he.spares
termination_by structural _ _ h => h

theorem ArgsCode.spares : ∀ {es : List Expr} {c : Code}, ArgsCode ctx scope es c → Spares slot c
  | _, _, .nil => .nil
  | _, _, .cons he hrest => .append he.spares hrest.spares
termination_by structural _ _ h => h

/-- The initial values of a record, each with the copy of the object and the setting of the
field. -/
theorem FieldsCode.spares :
    ∀ {fields : List VarDecl} {c : Code}, FieldsCode ctx scope fields c → Spares slot c
  | _, _, .nil => .nil
  | _, _, .cons hinit hrest =>
    .plain _ (.append hinit.spares (.other nofun hrest.spares))
termination_by structural _ _ h => h

end

end Expressions

/-! ## Names of a slot -/

namespace Scope

variable {s s' : Scope} {slot : Nat} {name : String}

/-- The slot is that of a variable in the scope, be it hidden or not. -/
def Holds (s : Scope) (slot : Nat) : Prop := ∃ b ∈ s.bindings, b.slot = slot

/-- A slot that a name stands for is that of a variable. -/
theorem holds_of_resolve? (h : s.resolve? name = some slot) : s.Holds slot := by
  obtain ⟨b, hb, _, hslot⟩ := exists_of_resolve? h
  exact ⟨b, hb, hslot⟩

theorem Holds.enter (h : s.Holds slot) : s.enter.Holds slot := h

/-- Declarations take no slot away. -/
theorem Holds.of_grows (h : s.Holds slot) (hgrows : s.Grows s') : s'.Holds slot := by
  obtain ⟨b, hb, hslot⟩ := h
  obtain ⟨new, hnew, _⟩ := hgrows.bindings
  exact ⟨b, hnew ▸ List.mem_append_right new hb, hslot⟩

/-- A slot that is given out lies before the next one. -/
theorem Holds.lt_nextSlot (h : s.Holds slot) (hs : s.Orderly) : slot < s.nextSlot := by
  obtain ⟨b, hb, rfl⟩ := h
  exact hs.fresh b hb

/-- Declarations get slots of their own, so that no new name stands for an old slot. -/
theorem resolve?_of_grows (hgrows : s.Grows s') (hs : s.Orderly) (hs' : s'.Orderly)
    (hslot : s.Holds slot) (h : s'.resolve? name = some slot) : s.resolve? name = some slot := by
  obtain ⟨new, hnew, _⟩ := hgrows.bindings
  obtain ⟨⟨found, hfound, hname, hsame⟩, hgreatest⟩ := hs'.resolve?_eq_some_iff.1 h
  have hdecreasing := hs'.decreasing
  rw [hnew] at hfound hgreatest hdecreasing
  obtain ⟨old, hold, rfl⟩ := hslot
  have hmem : found ∈ s.bindings := by
    rcases List.mem_append.1 hfound with hin | hin
    · -- A new declaration would have a later slot than the old one.
      have hlater := (List.pairwise_append.1 hdecreasing).2.2 found hin old hold
      omega
    · exact hin
  exact hs.resolve?_eq_some_iff.2
    ⟨⟨found, hmem, hname, hsame⟩, fun b hb => hgreatest b (List.mem_append_right new hb)⟩

/-- Two names never stand for the same slot. -/
theorem Orderly.resolve?_inj (hs : s.Orderly) {other : String} (h : s.resolve? name = some slot)
    (hother : s.resolve? other = some slot) : name = other := by
  obtain ⟨b, hb, rfl, hslot⟩ := exists_of_resolve? h
  obtain ⟨c, hc, rfl, hsame⟩ := exists_of_resolve? hother
  have hdistinct : (s.bindings.map Binding.slot).Nodup :=
    List.pairwise_map.2 (hs.decreasing.imp fun hlt => (Nat.ne_of_lt hlt).symm)
  rw [List.inj_on_of_nodup_map hdistinct hb hc (hslot.trans hsame.symm)]

/-- A name stands for the variable that was declared last. -/
theorem resolve?_declare_self (s : Scope) (name : String) :
    (s.declare name).resolve? name = some s.nextSlot := by
  simp [resolve?, declare]

end Scope

/-! ## Statements -/

section Statements

variable {ctx : Context} {slot : Nat}

/-- A name that stands for an old slot behind a statement has not been declared by it. -/
theorem StmtCode.hides_eq_false {base : Nat} {scope scope' : Scope} {s : Stmt} {c : Code}
    {name : String} (h : StmtCode ctx base scope s c scope') (hord : scope.Orderly)
    (hslot : scope.Holds slot) (hname : scope'.resolve? name = some slot) :
    s.hides name = false := by
  cases h with
  | declare =>
    refine beq_eq_false_iff_ne.2 ?_
    rintro rfl
    rw [Scope.resolve?_declare_self] at hname
    exact Nat.ne_of_gt (hslot.lt_nextSlot hord) (Option.some.inj hname)
  | _ => rfl

mutual

/-- The code of a statement spares a slot if the statement sets no variable whose name stands for
it. -/
theorem StmtCode.spares :
    ∀ {base : Nat} {scope : Scope} {s : Stmt} {c : Code} {scope' : Scope},
      StmtCode ctx base scope s c scope' → scope.Orderly → scope.Holds slot →
      (∀ name, scope.resolve? name = some slot → s.sets name = false) → Spares slot c
  | _, _, _, _, _, .declare hinit, hord, hslot, _ =>
    .append hinit.spares (.store (Nat.ne_of_gt (hslot.lt_nextSlot hord)) .nil)
  | _, _, _, _, _, .assign hvalue htarget, _, _, hsets => by
    refine .append hvalue.spares (.assignCode ?_)
    rintro rfl rfl
    exact absurd rfl (beq_eq_false_iff_ne.1 (hsets _ htarget))
  | _, _, _, _, _, .ifChain hchain, hord, hslot, hsets =>
    .append (hchain.spares hord hslot hsets) (.plain _ .nil)
  | _, _, _, _, _, .whileLoop hcond hbody, hord, hslot, hsets =>
    hcond.spares.whileCode (hbody.spares hord.enter hslot.enter hsets) _
  | _, _, .forLoop var _ _ _ body, _, _,
    @StmtCode.forLoop _ _ _ _ _ _ _ _ _ _ _ _ _ _ inner hstart hcounter hstop _ hbody, hord, hslot,
    hsets => by
    -- The counter may be new, or an old variable of that name.
    have hgrows := Scope.Grows.counter hcounter
    have hinner := hord.enter.counter hcounter
    have hnames : ∀ name, inner.resolve? name = some slot →
        (var == name) = false ∧ Stmt.setsIn name body = false := by
      intro name hname
      have hbefore := Scope.resolve?_of_grows hgrows hord.enter hinner hslot.enter hname
      exact Bool.or_eq_false_iff.1 (hsets name hbefore)
    refine hstart.spares.forCode hstop.spares (hbody.spares hinner.enter
      (hslot.enter.of_grows hgrows).enter fun name hname => (hnames name hname).2) ?_ _ _
    -- The counter stands for its slot, so that it would be set if the two were the same.
    rintro rfl
    exact absurd rfl (beq_eq_false_iff_ne.1 (hnames _ (Scope.resolve?_counter hcounter)).1)
  | _, _, _, _, _, .retNil, _, _, _ => .other nofun (.plain _ .nil)
  | _, _, _, _, _, .ret he, _, _, _ => .append he.spares (.plain _ .nil)
  | _, _, _, _, _, .delete htarget, _, _, hsets => by
    refine .other nofun (.plain _ (.other nofun (.store ?_ .nil)))
    rintro rfl
    exact absurd rfl (beq_eq_false_iff_ne.1 (hsets _ htarget))
  | _, _, _, _, _, .call hcall, _, _, _ => .append hcall.spares (.other nofun .nil)
termination_by structural _ _ _ _ _ h => h

/-- The statements of a body, one after the other. For a name that stands for the slot behind the
first statement, `Stmt.setsIn` speaks of the rest too, as this statement does not hide it. -/
theorem SequenceCode.spares :
    ∀ {base : Nat} {scope : Scope} {body : List Stmt} {c : Code} {scope' : Scope},
      SequenceCode ctx base scope body c scope' → scope.Orderly → scope.Holds slot →
      (∀ name, scope.resolve? name = some slot → Stmt.setsIn name body = false) → Spares slot c
  | _, _, _, _, _, .nil, _, _, _ => .nil
  | _, _, _, _, _, .cons hs hrest, hord, hslot, hsets => by
    obtain ⟨hgrows, hmid⟩ := hs.grows hord
    refine .append
      (hs.spares hord hslot fun name hname => (Bool.or_eq_false_iff.1 (hsets name hname)).1)
      (hrest.spares hmid (hslot.of_grows hgrows) ?_)
    intro name hname
    have hrestored := (Bool.or_eq_false_iff.1
      (hsets name (Scope.resolve?_of_grows hgrows hord hmid hslot hname))).2
    rw [hs.hides_eq_false hord hslot hname] at hrestored
    exact hrestored
termination_by structural _ _ _ _ _ h => h

/-- The branches of a chain. Each starts in the scope before the chain, with slots that are given
out behind those of the branch before. -/
theorem ChainCode.spares :
    ∀ {base : Nat} {scope : Scope} {landing : Nat} {chain : Chain} {c : Code} {scope' : Scope},
      ChainCode ctx base scope landing chain c scope' → scope.Orderly → scope.Holds slot →
      (∀ name, scope.resolve? name = some slot → chain.sets name = false) → Spares slot c
  | _, _, _, _, _, _, .done, _, _, _ => .nil
  | _, _, _, _, _, _, .otherwise hbody, hord, hslot, hsets =>
    hbody.spares hord.enter hslot.enter hsets
  | _, _, _, _, _, _, .branch hcond hbody _ hrest, hord, hslot, hsets => by
    have hgrows := (hbody.grows hord.enter).1
    have hblock := Scope.Grows.of_block hord hgrows
    have hbehind := Scope.Orderly.of_block hord hgrows
    -- A name that is not set by the chain is set neither by the body nor by the other branches.
    have hnames : ∀ name, _ → _ := fun name hname => Bool.or_eq_false_iff.1 (hsets name hname)
    refine .append hcond.spares (.other nofun (.append (.append
      (hbody.spares hord.enter hslot.enter fun name hname => (hnames name hname).1)
      (.exitCode _ _)) ?_))
    refine hrest.spares hbehind (hslot.of_grows hblock) fun name hname => (hnames name ?_).2
    exact Scope.resolve?_of_grows hblock hord hbehind hslot hname
termination_by structural _ _ _ _ _ _ h => h

end

end Statements

/-! ## Regular loops -/

namespace CountingLoop

variable (l : CountingLoop)

/-- The body has not come to its end: the activation above `below` is there, and if it is innermost,
it stands before the end. -/
def Pending (below : List Activation) (s : State) : Prop :=
  ∃ inner a, s.frames = inner ++ a :: below ∧ (inner = [] → a.pc ≠ l.finish)

/-- Whenever the body is entered, it comes to its end. -/
structure Completes (m : Machine) (below : List Activation) (s : State) : Prop where
  /-- Where a trace is wanted, it can be written. -/
  shows : ∀ vs s₁, l.Runs m below vs s s₁ → m.Shows s₁
  /-- Once entered, the body comes to its end without failing or returning. -/
  completes : ∀ vs s₁ v s₂, l.Runs m below vs s s₁ → l.entering? below s₁ = some v →
    m.step s₁ = .next s₂ →
    ∃ n s₃, m.Steps n s₂ s₃ ∧ (∀ e ∈ m.executed n s₂, l.Pending below e) ∧ l.At below l.finish s₃

variable {l} {m : Machine} {below : List Activation} {s s' : State} {v : Int64}

/-- An instruction of a body that spares the counter is not about to set it. -/
theorem Working.busy (hspares : Spares l.slot l.body) (hs : l.Working below v s)
    (hpending : l.Pending below s) : l.Busy below s := by
  obtain ⟨inner, a, hframes, hb, hstart, hfinish, _⟩ := hs
  obtain ⟨inner', a', hframes', hpending⟩ := hpending
  obtain ⟨rfl, hsame⟩ := List.append_inj' (hframes.symm.trans hframes') rfl
  cases hsame
  refine ⟨inner, a, hframes, fun hinner => ⟨hpending hinner, ?_⟩⟩
  intro i hi
  have hlt : a.pc < l.finish := Nat.lt_of_le_of_ne hfinish (hpending hinner)
  exact hspares i (mem_body hstart hlt (hb ▸ hi))

/-- On its way through such a body the machine never sets the counter. -/
theorem busy_of_pending (hspares : Spares l.slot l.body) {n : Nat} (hsteps : m.Steps n s s')
    (hpending : ∀ e ∈ m.executed n s, l.Pending below e)
    (hopen : ∃ inner a, s'.frames = inner ++ a :: below) (hs : l.Working below v s) :
    ∀ e ∈ m.executed n s, l.Busy below e := by
  induction hsteps with
  | refl s => exact List.forall_mem_nil _
  | @head n s mid s' hstep hrest ih =>
    rw [Machine.executed_of_next hstep] at hpending ⊢
    obtain ⟨hhere, hlater⟩ := List.forall_mem_cons.1 hpending
    have hbusy := hs.busy hspares hhere
    -- That the function has not returned shows in the next state, be it pending or the last one.
    have hmid : ∃ inner a, mid.frames = inner ++ a :: below := by
      cases hrest with
      | refl => exact hopen
      | head hstep' _ =>
        rw [Machine.executed_of_next hstep'] at hlater
        obtain ⟨inner, a, hframes, _⟩ := (List.forall_mem_cons.1 hlater).1
        exact ⟨inner, a, hframes⟩
    exact List.forall_mem_cons.2 ⟨hbusy, ih hlater hopen (working_step hs hbusy hstep hmid)⟩

/-- A loop whose body comes to its end and spares the counter is regular. -/
theorem Completes.regular (h : l.Completes m below s) (hspares : Spares l.slot l.body) :
    l.Regular m below s where
  shows := h.shows
  completes := by
    intro vs s₁ v s₂ hruns hentering hstep
    obtain ⟨n, s₃, hsteps, hpending, a, hframes, hend⟩ :=
      h.completes vs s₁ v s₂ hruns hentering hstep
    have hopen : ∃ inner a, s₃.frames = inner ++ a :: below := ⟨[], a, hframes⟩
    -- The counter is there when the body starts, and its instructions leave it alone.
    have hworking := working_of_entering hentering hstep
    exact ⟨n, s₃, hsteps, busy_of_pending hspares hsteps hpending hopen hworking, a, hframes, hend⟩

end CountingLoop

end RecordMachine
