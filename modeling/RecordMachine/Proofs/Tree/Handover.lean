import RecordMachine.Proofs.Json.Documents
import RecordMachine.Proofs.Tree.Decoding

/-!
# Handing programs over

A program is handed over as the text of its document. Nothing is lost on the way
(`VersionedProgram.handover_lossless`), if no literal is a double and the document nests no deeper
than the reader of texts goes: the document of such a program is plain
(`VersionedProgram.isPlain_toJson`), so it is read back from its text, and the program is read back
from its document.
-/

namespace RecordMachine

/-! ## Plain documents -/

namespace Json

theorem isPlainAll_map {α : Type} {write : α → Json} {xs : List α}
    (h : ∀ x ∈ xs, (write x).isPlain = true) : isPlainAll (xs.map write) = true := by
  induction xs with
  | nil => rfl
  | cons x xs ih =>
    rw [List.forall_mem_cons] at h
    rw [List.map_cons, isPlainAll, h.1, ih h.2]
    rfl

@[simp] theorem isPlain_tagged (name : String) (content : Json) :
    (Json.tagged name content).isPlain = content.isPlain := by
  simp [Json.tagged]

@[simp] theorem isPlain_ofNames (names : List String) : (Json.ofNames names).isPlain = true :=
  isPlainAll_map fun _ _ => rfl

/-- A whole number of 64 bits is one that a document can have. -/
theorem isWord_toInt (n : Int64) : isWord n.toInt = true := by
  have hmin : Decimal.int64Min ≤ n.toInt := n.le_toInt
  have hmax : n.toInt < Decimal.wordLimit := by
    have hlimit : Decimal.wordLimit = 18446744073709551616 := by decide
    have hlt := n.toInt_lt
    omega
  simp [isWord, hmin, hmax]

end Json

/-- Only a double makes the document of a literal a number that is not whole. -/
theorem Literal.isPlain_toJson {l : Literal} (hl : (Expr.literal l).isDouble = false) :
    l.toJson.isPlain = true := by
  cases l with
  | int n => simp [Literal.toJson, Json.isWord_toInt]
  | double x => cases hl
  | bool b => rfl
  | char c => rfl
  | string s => rfl
  | nil => rfl

mutual

/-- The document of an expression without doubles is plain. The induction is on the expression and
the list of its arguments. -/
theorem Expr.isPlain_toJson : ∀ (e : Expr), e.all (fun e => !e.isDouble) = true →
    e.toJson.isPlain = true
  | .literal l, h => by
    rw [Expr.all, Bool.not_eq_true'] at h
    simp [Expr.toJson, Literal.isPlain_toJson h]
  | .path names, _ => by
    simp [Expr.toJson]
  | .new type, _ => rfl
  | .call name args, h => by
    rw [Expr.all, Bool.and_eq_true] at h
    simp [Expr.toJson, Expr.isPlainAll_allToJson args h.2]
  | .unary op e, h => by
    rw [Expr.all, Bool.and_eq_true] at h
    simp [Expr.toJson, Expr.isPlain_toJson e h.2]
  | .binary op left right, h => by
    rw [Expr.all, Bool.and_eq_true, Bool.and_eq_true] at h
    simp [Expr.toJson, Expr.isPlain_toJson left h.1.2, Expr.isPlain_toJson right h.2]
  | .group e, h => by
    rw [Expr.all, Bool.and_eq_true] at h
    simp [Expr.toJson, Expr.isPlain_toJson e h.2]

theorem Expr.isPlainAll_allToJson : ∀ (es : List Expr),
    Expr.allIn (fun e => !e.isDouble) es = true → Json.isPlainAll (Expr.allToJson es) = true
  | [], _ => rfl
  | e :: rest, h => by
    rw [Expr.allIn, Bool.and_eq_true] at h
    rw [Expr.allToJson, Json.isPlainAll, Expr.isPlain_toJson e h.1,
      Expr.isPlainAll_allToJson rest h.2]
    rfl

end

/-- A declaration has the expression of its initial value, and a type that may be left out. -/
theorem VarDecl.isPlain_toJson {d : VarDecl} (hd : d.init.all (fun e => !e.isDouble) = true) :
    d.toJson.isPlain = true := by
  have htype : (Json.ofOption .string d.type).isPlain = true := by
    cases d.type <;> rfl
  simp [VarDecl.toJson, htype, Expr.isPlain_toJson d.init hd]

mutual

/-- The document of a statement without doubles is plain; blocks and branches go along. -/
theorem Stmt.isPlain_toJson : ∀ (s : Stmt), s.all (fun e => !e.isDouble) = true →
    s.toJson.isPlain = true
  | .declare decl, h => by
    simp [Stmt.toJson, VarDecl.isPlain_toJson h]
  | .assign target value, h => by
    rw [Stmt.all, Bool.and_eq_true] at h
    simp [Stmt.toJson, Expr.isPlain_toJson value h.2]
  | .ifChain chain, h => by
    simp [Stmt.toJson, Chain.isPlainAll_branchesToJson chain h,
      Chain.isPlain_otherwiseToJson chain h]
  | .whileLoop cond body, h => by
    rw [Stmt.all, Bool.and_eq_true] at h
    simp [Stmt.toJson, Expr.isPlain_toJson cond h.1, Stmt.isPlainAll_allToJson body h.2]
  | .forLoop var start direction stop body, h => by
    rw [Stmt.all, Bool.and_eq_true, Bool.and_eq_true] at h
    simp [Stmt.toJson, Expr.isPlain_toJson start h.1.1, Expr.isPlain_toJson stop h.1.2,
      Stmt.isPlainAll_allToJson body h.2]
  | .ret none, _ => rfl
  | .ret (some value), h => by
    simp [Stmt.toJson, Json.ofOption, Expr.isPlain_toJson value h]
  | .delete name, _ => rfl
  | .call name args, h => by
    rw [Stmt.all, Expr.all, Bool.and_eq_true] at h
    simp [Stmt.toJson, Expr.isPlainAll_allToJson args h.2]

theorem Stmt.isPlainAll_allToJson : ∀ (body : List Stmt),
    Stmt.allIn (fun e => !e.isDouble) body = true → Json.isPlainAll (Stmt.allToJson body) = true
  | [], _ => rfl
  | s :: rest, h => by
    rw [Stmt.allIn, Bool.and_eq_true] at h
    rw [Stmt.allToJson, Json.isPlainAll, Stmt.isPlain_toJson s h.1,
      Stmt.isPlainAll_allToJson rest h.2]
    rfl

theorem Chain.isPlainAll_branchesToJson : ∀ (chain : Chain),
    chain.all (fun e => !e.isDouble) = true →
      Json.isPlainAll (Chain.branchesToJson chain) = true
  | .done, _ => rfl
  | .otherwise _, _ => rfl
  | .branch cond body rest, h => by
    rw [Chain.all, Bool.and_eq_true, Bool.and_eq_true] at h
    simp [Chain.branchesToJson, Expr.isPlain_toJson cond h.1.1,
      Stmt.isPlainAll_allToJson body h.1.2, Chain.isPlainAll_branchesToJson rest h.2]

theorem Chain.isPlain_otherwiseToJson : ∀ (chain : Chain),
    chain.all (fun e => !e.isDouble) = true → (Chain.otherwiseToJson chain).isPlain = true
  | .done, _ => rfl
  | .otherwise body, h => Stmt.isPlainAll_allToJson body h
  | .branch cond body rest, h => by
    rw [Chain.all, Bool.and_eq_true, Bool.and_eq_true] at h
    exact Chain.isPlain_otherwiseToJson rest h.2

end

namespace VersionedProgram

/-- The document of a program without doubles is plain. -/
theorem isPlain_toJson {v : VersionedProgram} (hversion : v.version < Nat.pow 2 32)
    (hdouble : v.program.hasNoDouble = true) : v.toJson.isPlain = true := by
  rw [Program.hasNoDouble, Program.all, Bool.and_eq_true, List.all_eq_true, List.all_eq_true]
    at hdouble
  have htypes : Json.isPlainAll (v.program.types.map TypeDecl.toJson) = true := by
    refine Json.isPlainAll_map fun d hd => ?_
    have hfields : Json.isPlainAll (d.fields.map VarDecl.toJson) = true :=
      Json.isPlainAll_map fun f hf =>
        VarDecl.isPlain_toJson (List.all_eq_true.1 (hdouble.1 d hd) f hf)
    simp [TypeDecl.toJson, hfields]
  have hfunctions : Json.isPlainAll (v.program.functions.map FunDecl.toJson) = true := by
    refine Json.isPlainAll_map fun f hf => ?_
    have hparams : Json.isPlainAll (f.params.map Param.toJson) = true :=
      Json.isPlainAll_map fun _ _ => rfl
    simp [FunDecl.toJson, hparams,
      Stmt.isPlainAll_allToJson f.body (hdouble.2 f hf)]
  -- A version of 32 bits is far within the range.
  have hword : Json.isWord v.version = true := by
    have hmin : Decimal.int64Min ≤ (v.version : Int) := by
      have hlimit : Decimal.int64Min = -9223372036854775808 := by decide
      omega
    have hmax : (v.version : Int) < Decimal.wordLimit := by
      have hlimit : Decimal.wordLimit = 18446744073709551616 := by decide
      have hpow : Nat.pow 2 32 = 4294967296 := by decide
      omega
    simp [Json.isWord, hmin, hmax]
  simp [VersionedProgram.toJson, htypes, hfunctions, hword]

/-- A program that is handed over arrives as it was: with its version, its names, strings and
characters, and its whole numbers. -/
theorem handover_lossless (v : VersionedProgram) (hversion : v.version < Nat.pow 2 32)
    (hdouble : v.program.hasNoDouble = true) (hdepth : v.toJson.depth ≤ Json.nestingLimit) :
    VersionedProgram.parse? v.render = some v := by
  -- First from the text to the document, then from the document to the program.
  have htext : Json.parse? v.toJson.render.toList = some v.toJson :=
    Json.parse?_render (isPlain_toJson hversion hdouble) hdepth
  rw [VersionedProgram.parse?, VersionedProgram.render, htext, Option.bind_some]
  exact VersionedProgram.ofJson?_toJson hversion hdouble

/-- A program with the greatest version, the least whole number, characters that are escaped in each
of the ways there are, and one beyond the sixteen bits of a unit. -/
def awkward : VersionedProgram where
  version := 4294967295
  program :=
    { types := [⟨"Größe", [⟨"mark", none, .literal (.char '\x00')⟩]⟩]
      functions := [⟨"main", "void", [⟨"arg", "int"⟩],
        [.ifChain (.branch (.literal (.bool true)) []
            (.otherwise [.print (.literal (.string "\"\\/\n\x1f\x7f𝄞"))])),
          .ret (some (.literal (.int (-9223372036854775808))))]⟩] }

/-- It arrives as it was, with all of these. -/
theorem handover_lossless_awkward :
    awkward.version < Nat.pow 2 32 ∧ awkward.program.hasNoDouble = true ∧
      awkward.toJson.depth ≤ Json.nestingLimit ∧
      VersionedProgram.parse? awkward.render = some awkward := by
  have hversion : awkward.version < Nat.pow 2 32 := by decide
  have hdouble : awkward.program.hasNoDouble = true := by decide
  have hdepth : awkward.toJson.depth ≤ Json.nestingLimit := by decide
  exact ⟨hversion, hdouble, hdepth, handover_lossless awkward hversion hdouble hdepth⟩

end VersionedProgram

end RecordMachine
