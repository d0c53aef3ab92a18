import RecordMachine.Value.Operations
import RecordMachine.Proofs.Text.Octets

/-!
# The order of texts

Strings are compared by the octets of their UTF-8 encodings. This is the order of texts by their
characters (`Value.stringOrder_eq`): the encoding of a character is below that of a greater one, and
the two differ before either of them ends (`Text.precedes_utf8EncodeChar`), so that whatever follows
does not matter.

The form of a character, which has one to four octets, grows with its number, and the first octet
tells the forms apart in this order. Within a form the octets are the digits of the number to the
base 64.
-/

namespace RecordMachine

/-! ## Octets -/

namespace Text

/-- The loop that lists a byte array has the octets before `i` in reverse, and those from `i` on are
still to come. -/
theorem toList_loop (bytes : ByteArray) (i : Nat) (read : List UInt8) :
    ByteArray.toList.loop bytes i read = read.reverse ++ bytes.data.toList.drop i := by
  fun_induction ByteArray.toList.loop bytes i read with
  | case1 i read h ih =>
    have hi : i < bytes.data.toList.length := h
    have hget : bytes.get! i = bytes.data.toList[i] := by simp [ByteArray.get!, h]
    rw [ih, List.drop_eq_getElem_cons hi, hget, List.reverse_cons, List.append_assoc]
    rfl
  | case2 i read h =>
    rw [List.drop_of_length_le (Nat.le_of_not_lt h), List.append_nil]

theorem toList_toUTF8 (s : String) : s.toUTF8.toList = octets s.toList := by
  have hbytes : s.toUTF8 = (octets s.toList).toByteArray := String.utf8Encode_toList.symm
  rw [hbytes, ByteArray.toList, toList_loop, List.reverse_nil, List.nil_append, List.drop_zero,
    List.toList_data_toByteArray]

/-- The octets `s` come before the octets `t`. -/
def Precedes (s t : List UInt8) : Prop := List.compareLex compare s t = .lt

/-- Two lists of octets are in order if their first octets are, and if these are the same then
because of what follows. -/
theorem Precedes.cons {m n : Nat} {s t : List UInt8} (hn : n < 256) (hle : m ≤ n)
    (hrest : m = n → Precedes s t) : Precedes (UInt8.ofNat m :: s) (UInt8.ofNat n :: t) := by
  unfold Precedes
  rw [List.compareLex_cons_cons, Ordering.then_eq_lt]
  rcases Nat.lt_or_eq_of_le hle with hlt | rfl
  · left
    apply Std.compare_eq_lt.2
    rw [UInt8.lt_iff_toNat_lt, UInt8.toNat_ofNat_of_lt' hn,
      UInt8.toNat_ofNat_of_lt' (Nat.lt_trans hlt hn)]
    exact hlt
  · exact .inr ⟨Std.ReflCmp.compare_self, hrest rfl⟩

/-- The encodings of two characters differ, in the order of the characters, before either of them
ends. -/
theorem precedes_utf8EncodeChar {c d : Char} (h : c < d) (s t : List UInt8) :
    Precedes (String.utf8EncodeChar c ++ s) (String.utf8EncodeChar d ++ t) := by
  have hlt : c.val.toNat < d.val.toNat := h
  have hmax : d.val.toNat < 1114112 := by
    rcases d.valid with hlow | ⟨_, hhigh⟩ <;> omega
  unfold String.utf8EncodeChar
  dsimp only
  -- Whatever the forms of the two are, their octets are in order one by one, and if those that both
  -- have are the same, so are the forms and the numbers.
  repeat' split
  all_goals
    repeat refine Precedes.cons (by omega) (by omega) fun _ => ?_
    exfalso
    omega

/-! ## Characters -/

/-- The same beginning of two lists does not matter for their order. -/
theorem compareLex_append_left {α : Type} {cmp : α → α → Ordering} [Std.ReflCmp cmp]
    (front a b : List α) :
    List.compareLex cmp (front ++ a) (front ++ b) = List.compareLex cmp a b := by
  induction front with
  | nil => rfl
  | cons x front ih =>
    have hsame : cmp x x = .eq := Std.ReflCmp.compare_self
    rw [List.cons_append, List.cons_append, List.compareLex_cons_cons, hsame, ih]
    rfl

theorem compare_eq_lt_iff {c d : Char} : compare c d = .lt ↔ c < d := compareOfLessAndEq_eq_lt

/-- Every character has at least one octet, so a text that is not empty has one. -/
theorem exists_octets_cons (c : Char) (cs : List Char) :
    ∃ x rest, octets (c :: cs) = x :: rest := by
  obtain ⟨x, rest, hx⟩ := List.exists_cons_of_ne_nil (String.utf8EncodeChar_ne_nil (c := c))
  exact ⟨x, rest ++ octets cs, by rw [octets, List.flatMap_cons, hx, List.cons_append, octets]⟩

/-- The order of octets is that of the characters. -/
theorem compareLex_octets (cs ds : List Char) :
    List.compareLex compare (octets cs) (octets ds) = List.compareLex compare cs ds := by
  -- Character by character: the first two that differ decide, and with octets they do so as well.
  induction cs generalizing ds with
  | nil =>
    cases ds with
    | nil => rfl
    | cons d ds =>
      obtain ⟨x, rest, hx⟩ := exists_octets_cons d ds
      rw [hx]
      rfl
  | cons c cs ih =>
    cases ds with
    | nil =>
      obtain ⟨x, rest, hx⟩ := exists_octets_cons c cs
      rw [hx]
      rfl
    | cons d ds =>
      rw [List.compareLex_cons_cons]
      cases hcmp : compare c d with
      | lt => exact precedes_utf8EncodeChar (compare_eq_lt_iff.1 hcmp) _ _
      | eq =>
        obtain rfl := Std.LawfulEqCmp.eq_of_compare hcmp
        exact (compareLex_append_left _ _ _).trans (ih ds)
      | gt =>
        have hswap := precedes_utf8EncodeChar (compare_eq_lt_iff.1 (Std.OrientedCmp.lt_of_gt hcmp))
        exact Std.OrientedCmp.gt_of_lt (hswap (octets ds) (octets cs))

/-- One text comes before another in the order of comparison exactly if it does so
lexicographically. -/
theorem compareLex_eq_lt_iff {cs ds : List Char} :
    List.compareLex compare cs ds = .lt ↔ List.Lex (· < ·) cs ds := by
  induction cs generalizing ds with
  | nil => cases ds <;> simp [List.compareLex_nil_nil, List.compareLex_nil_cons]
  | cons c cs ih =>
    cases ds with
    | nil => simp [List.compareLex_cons_nil]
    | cons d ds =>
      rw [List.compareLex_cons_cons, Ordering.then_eq_lt, compare_eq_lt_iff,
        Std.LawfulEqCmp.compare_eq_iff_eq, ih, List.cons_lex_cons_iff]

end Text

/-- Strings are ordered by their characters. -/
theorem Value.stringOrder_eq (s t : String) :
    Value.stringOrder s t = List.compareLex compare s.toList t.toList := by
  unfold Value.stringOrder
  rw [Text.toList_toUTF8, Text.toList_toUTF8, Text.compareLex_octets]

end RecordMachine
