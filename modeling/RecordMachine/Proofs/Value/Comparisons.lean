import RecordMachine.Proofs.Text.Order

/-!
# Comparisons

The six comparisons of values of one tag go back to one ordering of their contents and to one test
for equality. Where the ordering is a lawful one and calls equal what is equal (`Value.OrderedBy`),
as it is with whole numbers, characters and strings, the comparisons agree with each other
(`Value.OrderedBy.verdicts`). Everything else that can be asked follows from what the ordering and
the test for equality answer (`Value.comparison_congr`).
-/

namespace RecordMachine

/-- Whether the values of a tag have a total order. -/
def Tag.isOrdered : Tag → Bool
  | .int | .char | .string => true
  | _ => false

/-- Whether the opcode is a comparison that needs an order. -/
def Opcode.isOrdering : Opcode → Bool
  | .cmpLt | .cmpLe | .cmpGt | .cmpGe => true
  | _ => false

namespace Value

variable {op : Opcode} {a b c : Value}

/-! ## Orderings behind the comparisons -/

/-- A comparison that asks for the order is answered by it. -/
theorem comparison_eq_ok {o : Ordering} {result : Bool} (horder : order? a b = some (some o))
    (hholds : holds? op o = some result) : comparison op a b = .ok (.bool result) := by
  unfold comparison
  split
  · cases hholds
  · cases hholds
  · rw [horder]
    dsimp only
    rw [hholds]

/-- Two pairs of values that stand in the same order, and are both equal or both not, are compared
alike. -/
theorem comparison_congr {a' b' : Value} {o : Option Ordering} (horder : order? a b = some o)
    (horder' : order? a' b' = some o) (hsame : a.same b = a'.same b') (op : Opcode) :
    comparison op a b = comparison op a' b' := by
  unfold comparison
  split
  · rw [hsame]
  · rw [hsame]
  · rw [horder, horder']
    cases o <;> rfl

/-- What the six comparisons answer to two values that stand to each other as `lt`, `eq` and `gt`
say. -/
structure Verdicts (a b : Value) (lt eq gt : Bool) : Prop where
  exclusive : lt.toNat + eq.toNat + gt.toNat = 1
  isLt : comparison .cmpLt a b = .ok (.bool lt)
  isEq : comparison .cmpEq a b = .ok (.bool eq)
  isGt : comparison .cmpGt a b = .ok (.bool gt)
  isLe : comparison .cmpLe a b = .ok (.bool (lt || eq))
  isGe : comparison .cmpGe a b = .ok (.bool !lt)
  isNe : comparison .cmpNe a b = .ok (.bool !eq)
  converse : comparison .cmpLt b a = .ok (.bool gt)

/-- The values that `make` gives are ordered as `cmp` orders what they are made of, and this is a
total order. -/
structure OrderedBy {α : Type} (make : α → Value) (cmp : α → α → Ordering) : Prop where
  trans : Std.TransCmp cmp
  lawful : Std.LawfulEqCmp cmp
  order (x y : α) : order? (make x) (make y) = some (some (cmp x y))
  same (x y : α) : (make x).same (make y) = true ↔ x = y

namespace OrderedBy

variable {α : Type} {make : α → Value} {cmp : α → α → Ordering} (h : OrderedBy make cmp)

include h

/-- Values are equal exactly if the order calls them so. -/
theorem same_eq (x y : α) : (make x).same (make y) = (cmp x y).isEq := by
  have := h.lawful
  have heq : cmp x y = .eq ↔ x = y := Std.LawfulEqCmp.compare_eq_iff_eq
  rw [Bool.eq_iff_iff, h.same, ← heq]
  cases cmp x y <;> decide

/-- What the comparisons answer about ordered values is read off their order. -/
theorem verdicts (x y : α) :
    Verdicts (make x) (make y) (cmp x y).isLT (cmp x y).isEq (cmp x y).isGT where
  exclusive := by cases cmp x y <;> rfl
  isLt := comparison_eq_ok (h.order x y) rfl
  isEq := by rw [comparison, h.same_eq]
  isGt := comparison_eq_ok (h.order x y) rfl
  isLe := by
    apply comparison_eq_ok (h.order x y)
    cases cmp x y <;> rfl
  isGe := by
    apply comparison_eq_ok (h.order x y)
    cases cmp x y <;> rfl
  isNe := by rw [comparison, h.same_eq]
  converse := by
    have := h.trans
    -- A total order is turned around with its arguments.
    have hswap : cmp y x = (cmp x y).swap := Std.OrientedCmp.eq_swap
    apply comparison_eq_ok (h.order y x)
    rw [hswap]
    cases cmp x y <;> rfl

theorem lt_iff {x y : α} :
    comparison .cmpLt (make x) (make y) = .ok (.bool true) ↔ cmp x y = .lt := by
  rw [(h.verdicts x y).isLt]
  cases cmp x y <;> decide

theorem lt_trans {x y z : α} (hxy : comparison .cmpLt (make x) (make y) = .ok (.bool true))
    (hyz : comparison .cmpLt (make y) (make z) = .ok (.bool true)) :
    comparison .cmpLt (make x) (make z) = .ok (.bool true) := by
  have := h.trans
  exact h.lt_iff.2 (Std.TransCmp.lt_trans (h.lt_iff.1 hxy) (h.lt_iff.1 hyz))

end OrderedBy

/-! ## Whole numbers, characters and strings -/

theorem orderedBy_int : OrderedBy .int compare where
  trans := inferInstance
  lawful := inferInstance
  order _ _ := rfl
  same _ _ := beq_iff_eq

theorem orderedBy_char : OrderedBy .char compare where
  trans := inferInstance
  lawful := inferInstance
  order _ _ := rfl
  same _ _ := beq_iff_eq

/-- A string is ordered as the list of its characters. -/
theorem orderedBy_string :
    OrderedBy (fun chars => .string (String.ofList chars)) (List.compareLex compare) where
  trans := inferInstance
  lawful := inferInstance
  order x y := by
    have horder := stringOrder_eq (String.ofList x) (String.ofList y)
    rw [String.toList_ofList, String.toList_ofList] at horder
    exact congrArg (fun o => some (some o)) horder
  same _ _ := beq_iff_eq.trans String.ofList_inj

/-- The values of a tag with an order are made of something that has a total order. -/
theorem exists_orderedBy {t : Tag} (h : t.isOrdered = true) :
    ∃ (α : Type) (make : α → Value) (cmp : α → α → Ordering), OrderedBy make cmp ∧
      ∀ v : Value, v.tag = t → ∃ x, v = make x := by
  cases t with
  | int =>
    -- Values of one tag are made by one constructor.
    refine ⟨_, _, _, orderedBy_int, fun v hv => ?_⟩
    cases v with
    | int n => exact ⟨n, rfl⟩
    | _ => cases hv
  | char =>
    refine ⟨_, _, _, orderedBy_char, fun v hv => ?_⟩
    cases v with
    | char c => exact ⟨c, rfl⟩
    | _ => cases hv
  | string =>
    refine ⟨_, _, _, orderedBy_string, fun v hv => ?_⟩
    cases v with
    | string s => exact ⟨s.toList, by rw [String.ofList_toList]⟩
    | _ => cases hv
  | _ => cases h

/-- Two values of one ordered tag get consistent answers, whichever tag it is. -/
theorem exists_verdicts (hab : a.tag = b.tag) (hordered : a.tag.isOrdered = true) :
    ∃ lt eq gt, Verdicts a b lt eq gt := by
  obtain ⟨_, _, _, h, hmade⟩ := exists_orderedBy hordered
  obtain ⟨x, rfl⟩ := hmade a rfl
  obtain ⟨y, rfl⟩ := hmade b hab.symm
  exact ⟨_, _, _, h.verdicts x y⟩

theorem comparison_lt_trans (hab : a.tag = b.tag) (hbc : b.tag = c.tag)
    (hordered : a.tag.isOrdered = true) (hlt : comparison .cmpLt a b = .ok (.bool true))
    (hlt' : comparison .cmpLt b c = .ok (.bool true)) :
    comparison .cmpLt a c = .ok (.bool true) := by
  obtain ⟨_, _, _, h, hmade⟩ := exists_orderedBy hordered
  obtain ⟨x, rfl⟩ := hmade a rfl
  obtain ⟨y, rfl⟩ := hmade b hab.symm
  obtain ⟨z, rfl⟩ := hmade c (hab.trans hbc).symm
  exact h.lt_trans hlt hlt'

/-- Strings are less than each other as lists of characters are, lexicographically. -/
theorem comparison_lt_string (s t : String) :
    comparison .cmpLt (.string s) (.string t) = .ok (.bool true) ↔
      List.Lex (· < ·) s.toList t.toList := by
  have hiff := orderedBy_string.lt_iff (x := s.toList) (y := t.toList)
  rw [String.ofList_toList, String.ofList_toList] at hiff
  exact hiff.trans Text.compareLex_eq_lt_iff

/-- Text that is put in front of two strings does not change how they compare. -/
theorem comparison_prepend (op : Opcode) (front s t : String) :
    comparison op (.string (front ++ s)) (.string (front ++ t)) =
      comparison op (.string s) (.string t) := by
  -- The characters that both have in front are skipped by the order, and by equality.
  have horder : stringOrder (front ++ s) (front ++ t) = stringOrder s t := by
    simp only [stringOrder_eq, String.toList_append]
    exact Text.compareLex_append_left _ _ _
  have hsame : (front ++ s == front ++ t) = (s == t) := by
    rw [Bool.eq_iff_iff, beq_iff_eq, beq_iff_eq, ← String.toList_inj, ← String.toList_inj,
      String.toList_append, String.toList_append, List.append_cancel_left_eq]
  apply comparison_congr (o := some (stringOrder s t))
  · rw [order?, horder]
  · rfl
  · exact hsame

/-- Strings of one character compare as their characters do. -/
theorem comparison_singleton (op : Opcode) (c d : Char) :
    comparison op (.string (String.ofList [c])) (.string (String.ofList [d])) =
      comparison op (.char c) (.char d) := by
  have horder : List.compareLex compare [c] [d] = compare c d := by
    rw [List.compareLex_cons_cons, List.compareLex_nil_nil]
    cases compare c d <;> rfl
  have hsame : (String.ofList [c] == String.ofList [d]) = (c == d) := by
    rw [Bool.eq_iff_iff, beq_iff_eq, beq_iff_eq, String.ofList_inj, List.cons.injEq]
    simp
  apply comparison_congr (o := some (compare c d))
  · rw [orderedBy_string.order, horder]
  · rfl
  · exact hsame

/-- A character or a string in front of a string is added to it as text. -/
theorem arithmetic_add_string {front : Value} (h : front.tag = .string ∨ front.tag = .char) :
    ∃ text : String, ∀ s, arithmetic .add front (.string s) = .ok (.string (text ++ s)) := by
  cases front with
  | string text => exact ⟨text, fun _ => rfl⟩
  | char c => exact ⟨String.ofList [c], fun _ => rfl⟩
  | _ => rcases h with h | h <;> cases h

/-! ## Other values -/

/-- There is no order between values of two tags, or of a tag without one. -/
theorem order?_eq_none (h : ¬(a.tag = b.tag ∧ (a.tag.isOrdered = true ∨ a.tag = .double))) :
    order? a b = none := by
  unfold order?
  split
  · exact absurd ⟨rfl, .inl rfl⟩ h
  · exact absurd ⟨rfl, .inr rfl⟩ h
  · exact absurd ⟨rfl, .inl rfl⟩ h
  · exact absurd ⟨rfl, .inl rfl⟩ h
  · rfl

/-- The order of values that have none is not answered. -/
theorem comparison_eq_error (hop : op.isOrdering = true)
    (h : ¬(a.tag = b.tag ∧ (a.tag.isOrdered = true ∨ a.tag = .double))) :
    comparison op a b = .error (.operands op a.tag b.tag) := by
  unfold comparison
  split
  · cases hop
  · cases hop
  · rw [order?_eq_none h]

/-- Each of the four comparisons has an answer to each order. -/
theorem exists_holds? (hop : op.isOrdering = true) (o : Ordering) : ∃ r, holds? op o = some r := by
  unfold Opcode.isOrdering at hop
  split at hop
  case h_5 => cases hop
  all_goals exact ⟨_, rfl⟩

/-- The order of two doubles is answered, also if they have none. -/
theorem exists_comparison_double (hop : op.isOrdering = true) (x y : Float) :
    ∃ r, comparison op (.double x) (.double y) = .ok (.bool r) := by
  cases horder : doubleOrder x y with
  | none =>
    refine ⟨false, ?_⟩
    unfold comparison
    split
    · cases hop
    · cases hop
    · rw [order?, horder]
  | some o =>
    obtain ⟨r, hr⟩ := exists_holds? hop o
    exact ⟨r, comparison_eq_ok (congrArg some horder) hr⟩

/-- The comparisons are consistent with each other. On whole numbers, on characters and on strings
they are those of one total order, and on strings this is the lexicographic order of the characters;
so it does not matter which text is added in front of two strings, and strings of one character
compare as their characters do. The order of other values is a type mismatch, except that of two
doubles, while equality can always be asked for. -/
theorem comparisons_consistent :
    (∀ a b : Value, a.tag = b.tag → a.tag.isOrdered = true → ∃ lt eq gt, Verdicts a b lt eq gt) ∧
    (∀ a b c : Value, a.tag = b.tag → b.tag = c.tag → a.tag.isOrdered = true →
      comparison .cmpLt a b = .ok (.bool true) → comparison .cmpLt b c = .ok (.bool true) →
        comparison .cmpLt a c = .ok (.bool true)) ∧
    (∀ s t : String, comparison .cmpLt (.string s) (.string t) = .ok (.bool true) ↔
      List.Lex (· < ·) s.toList t.toList) ∧
    (∀ (front : Value) (s t : String), front.tag = .string ∨ front.tag = .char →
      ∃ s' t', arithmetic .add front (.string s) = .ok s' ∧
        arithmetic .add front (.string t) = .ok t' ∧
        ∀ op, comparison op s' t' = comparison op (.string s) (.string t)) ∧
    (∀ (op : Opcode) (c d : Char),
      comparison op (.string (String.ofList [c])) (.string (String.ofList [d])) =
        comparison op (.char c) (.char d)) ∧
    (∀ (op : Opcode) (a b : Value), op.isOrdering = true →
      ¬(a.tag = b.tag ∧ (a.tag.isOrdered = true ∨ a.tag = .double)) →
        ∃ e, comparison op a b = .error e ∧ e.kind = .typeMismatch) ∧
    (∀ (op : Opcode) (x y : Float), op.isOrdering = true →
      ∃ r, comparison op (.double x) (.double y) = .ok (.bool r)) ∧
    ∀ a b : Value, ∃ r, comparison .cmpEq a b = .ok (.bool r) ∧
      comparison .cmpNe a b = .ok (.bool !r) := by
  refine ⟨fun _ _ => exists_verdicts, fun _ _ _ => comparison_lt_trans, comparison_lt_string, ?_,
    comparison_singleton, ?_, ?_, fun _ _ => ⟨_, rfl, rfl⟩⟩
  · intro front s t hfront
    -- Whatever is in front is added as a text, and this text is the same for both strings.
    obtain ⟨text, hadd⟩ := arithmetic_add_string hfront
    exact ⟨_, _, hadd s, hadd t, fun op => comparison_prepend op text s t⟩
  · intro op a b hop htags
    exact ⟨_, comparison_eq_error hop htags, rfl⟩
  · intro op x y hop
    exact exists_comparison_double hop x y

/-- Characters of two, three and four octets in the order of their numbers, the last two of which
would be the other way round in UTF-16; also behind a common character. An order of a character and
a string is not defined. -/
theorem comparisons_consistent_astral :
    comparison .cmpLt (.string "é") (.string "\uffee") = .ok (.bool true) ∧
    comparison .cmpLt (.string "\uffee") (.string "𝄞") = .ok (.bool true) ∧
    comparison .cmpLt (.string "é") (.string "𝄞") = .ok (.bool true) ∧
    comparison .cmpLt (.string "x\uffee") (.string "x𝄞") = .ok (.bool true) ∧
    (∃ e, comparison .cmpGe (.char 'x') (.string "x") = .error e ∧ e.kind = .typeMismatch) := by
  obtain ⟨_, htrans, hlex, hprepend, _, herror, _⟩ := comparisons_consistent
  have hlow : comparison .cmpLt (.string "é") (.string "\uffee") = .ok (.bool true) :=
    (hlex _ _).2 (.rel (by decide))
  have hhigh : comparison .cmpLt (.string "\uffee") (.string "𝄞") = .ok (.bool true) :=
    (hlex _ _).2 (.rel (by decide))
  obtain ⟨s', t', hs, ht, hsame⟩ := hprepend (.char 'x') "\uffee" "𝄞" (.inr rfl)
  cases hs
  cases ht
  exact ⟨hlow, hhigh, htrans _ (.string "\uffee") _ rfl rfl rfl hlow hhigh,
    (hsame .cmpLt).trans hhigh,
    herror .cmpGe _ _ rfl (by decide)⟩

end Value

end RecordMachine
