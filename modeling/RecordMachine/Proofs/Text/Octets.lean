import Mathlib.Data.List.Basic

/-!
# Octets of a text

The octets of a text in UTF-8 are those of its characters, one after the other (`octets`). Different
texts have different octets (`octets_inj`), and octets can be decoded exactly if they are those of a
text (`isValidUTF8_iff`). An octet of ASCII never stands inside the octets of another character
(`mem_of_mem_octets`), so that a text can be cut at such an octet before or after it is decoded
(`octets_eq_concat`).
-/

namespace RecordMachine.Text

def octets (chars : List Char) : List UInt8 := chars.flatMap String.utf8EncodeChar

theorem octets_append (chars more : List Char) :
    octets (chars ++ more) = octets chars ++ octets more :=
  List.flatMap_append

theorem utf8EncodeChar_of_lt {c : Char} (hc : c.toNat < 128) :
    String.utf8EncodeChar c = [UInt8.ofNat c.toNat] :=
  if_pos (Nat.le_of_lt_succ hc)

/-- An octet of ASCII is only in the character that has this number. -/
theorem eq_of_mem_utf8EncodeChar {c d : Char} (hc : c.toNat < 128)
    (hmem : UInt8.ofNat c.toNat ∈ String.utf8EncodeChar d) : d = c := by
  -- The number of the character fits into an octet.
  have hoctet : (UInt8.ofNat c.toNat).toNat = c.toNat := by
    rw [UInt8.toNat_ofNat']
    omega
  apply Char.toNat_inj.1
  by_cases hd : d.toNat < 128
  · rw [utf8EncodeChar_of_lt hd] at hmem
    have heq := congrArg UInt8.toNat (List.mem_singleton.1 hmem)
    rw [hoctet, UInt8.toNat_ofNat'] at heq
    omega
  · -- The other forms have only octets of at least 128.
    have hlong : ¬d.val.toNat ≤ 127 := fun h => hd (Nat.lt_succ_of_le h)
    unfold String.utf8EncodeChar at hmem
    dsimp only at hmem
    rw [if_neg hlong] at hmem
    split at hmem
    · simp only [List.mem_cons, List.not_mem_nil, or_false] at hmem
      rcases hmem with h | h <;> rw [h, UInt8.toNat_ofNat'] at hoctet <;> omega
    · split at hmem
      · simp only [List.mem_cons, List.not_mem_nil, or_false] at hmem
        rcases hmem with h | h | h <;> rw [h, UInt8.toNat_ofNat'] at hoctet <;> omega
      · simp only [List.mem_cons, List.not_mem_nil, or_false] at hmem
        rcases hmem with h | h | h | h <;> rw [h, UInt8.toNat_ofNat'] at hoctet <;> omega

/-- An octet of ASCII in a text is a character of this text. -/
theorem mem_of_mem_octets {chars : List Char} {c : Char} (hc : c.toNat < 128)
    (hmem : UInt8.ofNat c.toNat ∈ octets chars) : c ∈ chars := by
  obtain ⟨d, hd, hin⟩ := List.mem_flatMap.1 hmem
  rw [← eq_of_mem_utf8EncodeChar hc hin]
  exact hd

/-- A text whose last octet is one of ASCII ends with the character of this octet. -/
theorem octets_eq_concat {chars : List Char} {body : List UInt8} {c : Char} (hc : c.toNat < 128)
    (h : octets chars = body ++ [UInt8.ofNat c.toNat]) :
    ∃ front, chars = front ++ [c] ∧ octets front = body := by
  rcases List.eq_nil_or_concat chars with rfl | ⟨front, last, rfl⟩
  · simp [octets] at h
  · have hsplit : octets front ++ String.utf8EncodeChar last = body ++ [UInt8.ofNat c.toNat] := by
      simpa [octets] using h
    -- The last octet is that of the last character.
    have hmem : UInt8.ofNat c.toNat ∈ String.utf8EncodeChar last := by
      have hlast := congrArg List.getLast? hsplit
      rw [List.getLast?_append_of_ne_nil _ String.utf8EncodeChar_ne_nil, List.getLast?_concat]
        at hlast
      exact List.mem_of_getLast? hlast
    obtain rfl := eq_of_mem_utf8EncodeChar hc hmem
    rw [utf8EncodeChar_of_lt hc] at hsplit
    exact ⟨front, List.concat_eq_append, List.append_cancel_right hsplit⟩

/-- A text is determined by its octets. -/
theorem octets_inj {chars more : List Char} (h : octets chars = octets more) : chars = more := by
  have hbytes : (String.ofList chars).toByteArray = (String.ofList more).toByteArray := by
    rw [String.toByteArray_ofList, String.toByteArray_ofList]
    exact congrArg List.toByteArray h
  exact String.ofList_inj.1 (String.toByteArray_inj.1 hbytes)

/-- Octets can be decoded exactly if they are those of a text. -/
theorem isValidUTF8_iff {bytes : List UInt8} :
    ByteArray.IsValidUTF8 ⟨bytes.toArray⟩ ↔ ∃ chars, octets chars = bytes := by
  constructor
  · rintro ⟨chars, hchars⟩
    refine ⟨chars, ?_⟩
    have hdata : bytes = (octets chars).toByteArray.data.toList :=
      congrArg (fun array => array.data.toList) hchars
    rw [hdata, List.toList_data_toByteArray]
  · rintro ⟨chars, rfl⟩
    refine ⟨chars, ?_⟩
    apply ByteArray.ext
    exact List.data_toByteArray.symm

/-- Decoding gives the text that has these octets. -/
theorem octets_of_fromUTF8? {bytes : List UInt8} {text : String}
    (h : String.fromUTF8? ⟨bytes.toArray⟩ = some text) : octets text.toList = bytes := by
  unfold String.fromUTF8? at h
  split at h
  · next hvalid =>
    cases h
    have hdata :
        (octets (String.fromUTF8 ⟨bytes.toArray⟩ hvalid).toList).toByteArray.data.toList = bytes :=
      congrArg (fun array => array.data.toList) String.utf8Encode_toList
    exact List.toList_data_toByteArray.symm.trans hdata
  · cases h

end RecordMachine.Text
