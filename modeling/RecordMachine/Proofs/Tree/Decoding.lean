import RecordMachine.Proofs.Tree.Traversal
import RecordMachine.Tree.Decoding

/-!
# Reading trees from their documents

A program without doubles is read back from its document (`VersionedProgram.ofJson?_toJson`), and so
is each of its parts. Reading goes down one level for each level of the tree; the document has at
least as many levels, so the bound on them is never met.
-/

namespace RecordMachine

def Expr.isDouble : Expr → Bool
  | .literal (.double _) => true
  | _ => false

def Program.hasNoDouble (p : Program) : Bool := p.all fun e => !e.isDouble

/-! ## Reading trees -/

/-- A list is read back if each of its items is. -/
theorem mapM_map_eq_some {α β : Type} {write : α → β} {read : β → Option α} {xs : List α}
    (h : ∀ x ∈ xs, read (write x) = some x) : (xs.map write).mapM read = some xs := by
  induction xs with
  | nil => rfl
  | cons x xs ih =>
    rw [List.forall_mem_cons] at h
    rw [List.map_cons, List.mapM_cons, h.1, ih h.2]
    rfl

theorem Json.names?_ofNames (names : List String) : (Json.ofNames names).names? = some names :=
  mapM_map_eq_some fun _ _ => rfl

theorem UnaryOp.ofJson?_name (loose : Bool) (op : UnaryOp) :
    UnaryOp.ofJson? loose (.string op.name) = some op := by
  cases op <;> rfl

theorem BinaryOp.ofJson?_name (loose : Bool) (op : BinaryOp) :
    BinaryOp.ofJson? loose (.string op.name) = some op := by
  cases op <;> rfl

theorem Direction.ofJson?_name (loose : Bool) (direction : Direction) :
    Direction.ofJson? loose (.string direction.name) = some direction := by
  cases direction <;> rfl

theorem Json.int64?_toInt (n : Int64) : (Json.int n.toInt).int64? = some n := by
  have hmin : Decimal.int64Min ≤ n.toInt := n.le_toInt
  have hmax : n.toInt ≤ Decimal.int64Max := by
    have hlimit : Decimal.int64Max = 9223372036854775807 := by decide
    have hlt := n.toInt_lt
    omega
  rw [Json.int64?, if_pos ⟨hmin, hmax⟩, Int64.ofInt_toInt]

/-- A literal that is no double is read back; a character is a string of one. -/
theorem Literal.ofJson?_toJson (loose : Bool) {l : Literal}
    (hl : (Expr.literal l).isDouble = false) : Literal.ofJson? loose l.toJson = some l := by
  cases l with
  | int n =>
    show (Json.int n.toInt).int64?.map Literal.int = _
    rw [Json.int64?_toInt]
    rfl
  | double x => cases hl
  | bool b => rfl
  | char c =>
    show ((Json.string (String.ofList [c])).char?).map Literal.char = _
    simp [Json.char?]
  | string s => rfl
  | nil => rfl

/-- The document of an expression has at least one level, so that some of the bound is always
left. -/
theorem Expr.depth_toJson_pos (e : Expr) : 1 ≤ e.toJson.depth := by
  cases e <;> simp [Expr.toJson, Json.tagged, Json.depth]

/-- No expression is taken for an absent one. -/
theorem Expr.optional?_toJson (e : Expr) {α : Type} (read : Json → Option α) :
    e.toJson.optional? read = (read e.toJson).map some := by
  cases e <;> rfl

section Expressions

variable {loose : Bool}

-- Each case says first what reading comes to once the name of the alternative and the names of the
-- members have been looked up; that is a matter of evaluation.
mutual

/-- An expression is read back from its document. -/
theorem Expr.ofJson?_toJson : ∀ (e : Expr) {depth : Nat}, e.all (fun e => !e.isDouble) = true →
    e.toJson.depth ≤ depth → Expr.ofJson? loose depth e.toJson = some e
  | e, 0, _, hdepth => by
    have hpos := e.depth_toJson_pos
    omega
  | .literal l, depth + 1, h, _ => by
    rw [Expr.all, Bool.not_eq_true'] at h
    show (Literal.ofJson? loose l.toJson).map Expr.literal = _
    rw [Literal.ofJson?_toJson loose h]
    rfl
  | .path names, depth + 1, _, _ => by
    show (Json.ofNames names).names?.map Expr.path = _
    rw [Json.names?_ofNames]
    rfl
  | .new type, depth + 1, _, _ => rfl
  | .call name args, depth + 1, h, hdepth => by
    rw [Expr.all, Bool.and_eq_true] at h
    simp only [Expr.toJson, Json.tagged, Json.depth, Json.depthMembers] at hdepth
    show (do
      let args ← (Expr.allToJson args).mapM (Expr.ofJson? loose depth)
      return Expr.call name args) = _
    rw [Expr.mapM_allToJson args h.2 (by omega)]
    rfl
  | .unary op e, depth + 1, h, hdepth => by
    rw [Expr.all, Bool.and_eq_true] at h
    simp only [Expr.toJson, Json.tagged, Json.depth, Json.depthMembers] at hdepth
    show (do
      let op ← UnaryOp.ofJson? loose (.string op.name)
      let e ← Expr.ofJson? loose depth e.toJson
      return Expr.unary op e) = _
    rw [UnaryOp.ofJson?_name, Expr.ofJson?_toJson e h.2 (by omega)]
    rfl
  | .binary op left right, depth + 1, h, hdepth => by
    rw [Expr.all, Bool.and_eq_true, Bool.and_eq_true] at h
    simp only [Expr.toJson, Json.tagged, Json.depth, Json.depthMembers] at hdepth
    show (do
      let op ← BinaryOp.ofJson? loose (.string op.name)
      let left ← Expr.ofJson? loose depth left.toJson
      let right ← Expr.ofJson? loose depth right.toJson
      return Expr.binary op left right) = _
    rw [BinaryOp.ofJson?_name, Expr.ofJson?_toJson left h.1.2 (by omega),
      Expr.ofJson?_toJson right h.2 (by omega)]
    rfl
  | .group e, depth + 1, h, hdepth => by
    rw [Expr.all, Bool.and_eq_true] at h
    simp only [Expr.toJson, Json.tagged, Json.depth, Json.depthMembers] at hdepth
    show (Expr.ofJson? loose depth e.toJson).map Expr.group = _
    rw [Expr.ofJson?_toJson e h.2 (by omega)]
    rfl

theorem Expr.mapM_allToJson : ∀ (es : List Expr) {depth : Nat},
    Expr.allIn (fun e => !e.isDouble) es = true → Json.depthAll (Expr.allToJson es) ≤ depth →
    (Expr.allToJson es).mapM (Expr.ofJson? loose depth) = some es
  | [], _, _, _ => rfl
  | e :: rest, depth, h, hdepth => by
    rw [Expr.allIn, Bool.and_eq_true] at h
    rw [Expr.allToJson, Json.depthAll, Nat.max_le] at hdepth
    rw [Expr.allToJson, List.mapM_cons, Expr.ofJson?_toJson e h.1 hdepth.1,
      Expr.mapM_allToJson rest h.2 hdepth.2]
    rfl

end

end Expressions

theorem VarDecl.ofJson?_toJson {loose : Bool} {d : VarDecl} {depth : Nat}
    (hd : d.init.all (fun e => !e.isDouble) = true) (hdepth : d.toJson.depth ≤ depth) :
    VarDecl.ofJson? loose depth d.toJson = some d := by
  simp only [VarDecl.toJson, Json.depth, Json.depthMembers] at hdepth
  have htype : (Json.ofOption .string d.type).optional? Json.string? = some d.type := by
    cases d.type <;> rfl
  show (do
    let type ← (Json.ofOption .string d.type).optional? Json.string?
    let init ← Expr.ofJson? loose depth d.init.toJson
    return (⟨d.name, type, init⟩ : VarDecl)) = _
  rw [htype, Expr.ofJson?_toJson d.init hd (by omega)]
  rfl

/-- A chain is put together again from its branches. -/
theorem Chain.ofBranches_branches (chain : Chain) :
    Chain.ofBranches chain.branches chain.otherwise? = chain := by
  cases chain with
  | done => rfl
  | otherwise body => rfl
  | branch cond body rest =>
    exact congrArg (Chain.branch cond body) (Chain.ofBranches_branches rest)
termination_by structural chain

theorem Stmt.depth_toJson_pos (s : Stmt) : 1 ≤ s.toJson.depth := by
  cases s <;> simp [Stmt.toJson, Json.tagged, Json.depth]

def Chain.readBranch (loose : Bool) (depth : Nat) (j : Json) : Option (Expr × List Stmt) := do
  let [cond, body] ← j.record? [("cond", .required), ("body", .required)] | none
  let cond ← Expr.ofJson? loose depth cond
  let body ← body.listOf? (Stmt.ofJson? loose depth)
  return (cond, body)

section Statements

variable {loose : Bool}

mutual

/-- A statement is read back from its document. -/
theorem Stmt.ofJson?_toJson : ∀ (s : Stmt) {depth : Nat}, s.all (fun e => !e.isDouble) = true →
    s.toJson.depth ≤ depth → Stmt.ofJson? loose depth s.toJson = some s
  | s, 0, _, hdepth => by
    have hpos := s.depth_toJson_pos
    omega
  | .declare decl, depth + 1, h, hdepth => by
    simp only [Stmt.toJson, Json.tagged, Json.depth, Json.depthMembers] at hdepth
    show (VarDecl.ofJson? loose depth decl.toJson).map Stmt.declare = _
    rw [VarDecl.ofJson?_toJson h (by omega)]
    rfl
  | .assign target value, depth + 1, h, hdepth => by
    rw [Stmt.all, Bool.and_eq_true] at h
    simp only [Stmt.toJson, Json.tagged, Json.depth, Json.depthMembers] at hdepth
    show (do
      let target ← (Json.ofNames target).names?
      let value ← Expr.ofJson? loose depth value.toJson
      return Stmt.assign target value) = _
    rw [Json.names?_ofNames, Expr.ofJson?_toJson value h.2 (by omega)]
    rfl
  | .ifChain chain, depth + 1, h, hdepth => by
    simp only [Stmt.toJson, Json.tagged, Json.depth, Json.depthMembers] at hdepth
    show (do
      let branches ← (Chain.branchesToJson chain).mapM (Chain.readBranch loose depth)
      let last ← (Chain.otherwiseToJson chain).optional?
        fun j => j.listOf? (Stmt.ofJson? loose depth)
      return Stmt.ifChain (.ofBranches branches last)) = _
    rw [Chain.mapM_branchesToJson chain h (by omega),
      Chain.optional?_otherwiseToJson chain h (by omega)]
    -- The branches are written in two parts, and put together again.
    show some (Stmt.ifChain (.ofBranches chain.branches chain.otherwise?)) = _
    rw [Chain.ofBranches_branches]
  | .whileLoop cond body, depth + 1, h, hdepth => by
    rw [Stmt.all, Bool.and_eq_true] at h
    simp only [Stmt.toJson, Json.tagged, Json.depth, Json.depthMembers] at hdepth
    show (do
      let cond ← Expr.ofJson? loose depth cond.toJson
      let body ← (Stmt.allToJson body).mapM (Stmt.ofJson? loose depth)
      return Stmt.whileLoop cond body) = _
    rw [Expr.ofJson?_toJson cond h.1 (by omega), Stmt.mapM_allToJson body h.2 (by omega)]
    rfl
  | .forLoop var start direction stop body, depth + 1, h, hdepth => by
    rw [Stmt.all, Bool.and_eq_true, Bool.and_eq_true] at h
    simp only [Stmt.toJson, Json.tagged, Json.depth, Json.depthMembers] at hdepth
    show (do
      let start ← Expr.ofJson? loose depth start.toJson
      let direction ← Direction.ofJson? loose (.string direction.name)
      let stop ← Expr.ofJson? loose depth stop.toJson
      let body ← (Stmt.allToJson body).mapM (Stmt.ofJson? loose depth)
      return Stmt.forLoop var start direction stop body) = _
    rw [Expr.ofJson?_toJson start h.1.1 (by omega), Direction.ofJson?_name,
      Expr.ofJson?_toJson stop h.1.2 (by omega), Stmt.mapM_allToJson body h.2 (by omega)]
    rfl
  | .ret none, depth + 1, _, _ => rfl
  | .ret (some value), depth + 1, h, hdepth => by
    simp only [Stmt.toJson, Json.tagged, Json.ofOption, Json.depth, Json.depthMembers] at hdepth
    show (value.toJson.optional? (Expr.ofJson? loose depth)).map Stmt.ret = _
    rw [Expr.optional?_toJson, Expr.ofJson?_toJson value h (by omega)]
    rfl
  | .delete name, depth + 1, _, _ => rfl
  | .call name args, depth + 1, h, hdepth => by
    rw [Stmt.all, Expr.all, Bool.and_eq_true] at h
    simp only [Stmt.toJson, Json.tagged, Json.depth, Json.depthMembers] at hdepth
    show (do
      let args ← (Expr.allToJson args).mapM (Expr.ofJson? loose depth)
      return Stmt.call name args) = _
    rw [Expr.mapM_allToJson args h.2 (by omega)]
    rfl

theorem Stmt.mapM_allToJson : ∀ (body : List Stmt) {depth : Nat},
    Stmt.allIn (fun e => !e.isDouble) body = true → Json.depthAll (Stmt.allToJson body) ≤ depth →
    (Stmt.allToJson body).mapM (Stmt.ofJson? loose depth) = some body
  | [], _, _, _ => rfl
  | s :: rest, depth, h, hdepth => by
    rw [Stmt.allIn, Bool.and_eq_true] at h
    rw [Stmt.allToJson, Json.depthAll, Nat.max_le] at hdepth
    rw [Stmt.allToJson, List.mapM_cons, Stmt.ofJson?_toJson s h.1 hdepth.1,
      Stmt.mapM_allToJson rest h.2 hdepth.2]
    rfl

/-- The branches with a condition are read back in their order. -/
theorem Chain.mapM_branchesToJson : ∀ (chain : Chain) {depth : Nat},
    chain.all (fun e => !e.isDouble) = true →
    Json.depthAll (Chain.branchesToJson chain) ≤ depth →
    (Chain.branchesToJson chain).mapM (Chain.readBranch loose depth) = some chain.branches
  | .done, _, _, _ => rfl
  | .otherwise _, _, _, _ => rfl
  | .branch cond body rest, depth, h, hdepth => by
    rw [Chain.all, Bool.and_eq_true, Bool.and_eq_true] at h
    simp only [Chain.branchesToJson, Json.depthAll, Json.depth, Json.depthMembers] at hdepth
    have hbranch : Chain.readBranch loose depth
        (.object [("cond", cond.toJson), ("body", .array (Stmt.allToJson body))])
          = some (cond, body) := by
      show (do
        let cond ← Expr.ofJson? loose depth cond.toJson
        let body ← (Stmt.allToJson body).mapM (Stmt.ofJson? loose depth)
        return (cond, body)) = _
      rw [Expr.ofJson?_toJson cond h.1.1 (by omega), Stmt.mapM_allToJson body h.1.2 (by omega)]
      rfl
    rw [Chain.branchesToJson, List.mapM_cons, hbranch,
      Chain.mapM_branchesToJson rest h.2 (by omega)]
    rfl

/-- The branch without a condition is read back, and if there is none, its absence. -/
theorem Chain.optional?_otherwiseToJson : ∀ (chain : Chain) {depth : Nat},
    chain.all (fun e => !e.isDouble) = true → (Chain.otherwiseToJson chain).depth ≤ depth →
    ((Chain.otherwiseToJson chain).optional? fun j => j.listOf? (Stmt.ofJson? loose depth))
      = some chain.otherwise?
  | .done, _, _, _ => rfl
  | .otherwise body, depth, h, hdepth => by
    rw [Chain.otherwiseToJson, Json.depth] at hdepth
    show ((Stmt.allToJson body).mapM (Stmt.ofJson? loose depth)).map some = _
    rw [Stmt.mapM_allToJson body h (by omega)]
    rfl
  | .branch cond body rest, depth, h, hdepth => by
    rw [Chain.all, Bool.and_eq_true, Bool.and_eq_true] at h
    exact Chain.optional?_otherwiseToJson rest h.2 hdepth

end

end Statements

/-- An item nests no deeper than its list. -/
theorem Json.depth_le_depthAll {items : List Json} {j : Json} (hj : j ∈ items) :
    j.depth ≤ Json.depthAll items := by
  induction items with
  | nil => cases hj
  | cons item rest ih =>
    rw [Json.depthAll]
    rcases List.mem_cons.1 hj with rfl | hrest
    · exact Nat.le_max_left _ _
    · exact Nat.le_trans (ih hrest) (Nat.le_max_right _ _)

theorem Param.ofJson?_toJson (p : Param) : Param.ofJson? p.toJson = some p := rfl

theorem TypeDecl.ofJson?_toJson {loose : Bool} {d : TypeDecl} {depth : Nat}
    (hd : d.all (fun e => !e.isDouble) = true) (hdepth : d.toJson.depth ≤ depth) :
    TypeDecl.ofJson? loose depth d.toJson = some d := by
  simp only [TypeDecl.toJson, Json.depth, Json.depthMembers] at hdepth
  have hfields : (d.fields.map VarDecl.toJson).mapM (VarDecl.ofJson? loose depth)
      = some d.fields := by
    refine mapM_map_eq_some fun f hf => VarDecl.ofJson?_toJson (List.all_eq_true.1 hd f hf) ?_
    have hle := Json.depth_le_depthAll (List.mem_map_of_mem (f := VarDecl.toJson) hf)
    omega
  show (do
    let fields ← (d.fields.map VarDecl.toJson).mapM (VarDecl.ofJson? loose depth)
    return (⟨d.name, fields⟩ : TypeDecl)) = _
  rw [hfields]
  rfl

theorem FunDecl.ofJson?_toJson {loose : Bool} {f : FunDecl} {depth : Nat}
    (hf : Stmt.allIn (fun e => !e.isDouble) f.body = true) (hdepth : f.toJson.depth ≤ depth) :
    FunDecl.ofJson? loose depth f.toJson = some f := by
  simp only [FunDecl.toJson, Json.depth, Json.depthMembers] at hdepth
  have hparams : (f.params.map Param.toJson).mapM Param.ofJson? = some f.params :=
    mapM_map_eq_some fun p _ => p.ofJson?_toJson
  show (do
    let params ← (f.params.map Param.toJson).mapM Param.ofJson?
    let body ← (Stmt.allToJson f.body).mapM (Stmt.ofJson? loose depth)
    return (⟨f.name, f.returnType, params, body⟩ : FunDecl)) = _
  rw [hparams, Stmt.mapM_allToJson f.body hf (by omega)]
  rfl

/-- A program is read back from its document; the version in it is ignored. -/
theorem Program.ofJsonWith?_toJson {v : VersionedProgram} (hdouble : v.program.hasNoDouble = true) :
    Program.ofJsonWith? true v.toJson = some v.program := by
  rw [Program.hasNoDouble, Program.all, Bool.and_eq_true, List.all_eq_true, List.all_eq_true]
    at hdouble
  -- The bound is the depth of the whole document, of which the parts are two levels further down.
  have hdepth : v.toJson.depth = max (Json.depthAll (v.program.types.map TypeDecl.toJson) + 1)
      (Json.depthAll (v.program.functions.map FunDecl.toJson) + 1) + 1 := by
    simp only [VersionedProgram.toJson, Json.depth, Json.depthMembers]
    omega
  have htypes : (v.program.types.map TypeDecl.toJson).mapM
      (TypeDecl.ofJson? true v.toJson.depth) = some v.program.types := by
    refine mapM_map_eq_some fun d hd => TypeDecl.ofJson?_toJson (hdouble.1 d hd) ?_
    have hle := Json.depth_le_depthAll (List.mem_map_of_mem (f := TypeDecl.toJson) hd)
    omega
  have hfunctions : (v.program.functions.map FunDecl.toJson).mapM
      (FunDecl.ofJson? true v.toJson.depth) = some v.program.functions := by
    refine mapM_map_eq_some fun f hf => FunDecl.ofJson?_toJson (hdouble.2 f hf) ?_
    have hle := Json.depth_le_depthAll (List.mem_map_of_mem (f := FunDecl.toJson) hf)
    omega
  show (do
    let types ← (v.program.types.map TypeDecl.toJson).mapM (TypeDecl.ofJson? true v.toJson.depth)
    let functions ← (v.program.functions.map FunDecl.toJson).mapM
      (FunDecl.ofJson? true v.toJson.depth)
    return (⟨types, functions⟩ : Program)) = _
  rw [htypes, hfunctions]
  rfl

/-- A program with its version is read back from its document. -/
theorem VersionedProgram.ofJson?_toJson {v : VersionedProgram} (hversion : v.version < Nat.pow 2 32)
    (hdouble : v.program.hasNoDouble = true) : VersionedProgram.ofJson? v.toJson = some v := by
  -- A version of 32 bits is in the range that is read.
  have hfield : (Json.int v.version).nat? (Nat.pow 2 32) = some v.version := by
    have hrange : (0 : Int) ≤ v.version ∧ (v.version : Int) < (Nat.pow 2 32 : Nat) :=
      ⟨Int.natCast_nonneg _, Int.ofNat_lt.2 hversion⟩
    rw [Json.nat?, if_pos hrange, Int.toNat_natCast]
  have hmember : ∀ types functions : Json,
      Json.field? [("ast_version", .int v.version), ("types", types), ("functions", functions)]
        ("ast_version", .required) = some (.int v.version) := fun _ _ => rfl
  have hprogram := Program.ofJsonWith?_toJson hdouble
  rw [VersionedProgram.toJson] at hprogram ⊢
  rw [VersionedProgram.ofJson?, hmember, hprogram, Option.bind_eq_bind, Option.bind_some, hfield]
  rfl

end RecordMachine
