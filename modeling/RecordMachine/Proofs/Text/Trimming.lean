import Mathlib.Data.List.TakeWhile
import RecordMachine.Text.Blank

/-!
# Texts without the blanks around them

Which text is left of another one without the blanks at its two ends is said here without regard to
how it is found (`Trims`). Trimming finds it, and there is no other (`trims_iff`).
-/

namespace RecordMachine.Text

/-- The `core` of a text is what is left of it without the blanks at its two ends. -/
structure Trims (text core : List Char) : Prop where
  around : ∃ before after, text = before ++ core ++ after ∧
    (∀ c ∈ before, isBlank c = true) ∧ ∀ c ∈ after, isBlank c = true
  first : ∀ c ∈ core.head?, isBlank c = false
  last : ∀ c ∈ core.getLast?, isBlank c = false

/-- Blanks in front are dropped up to the first character that is none. -/
theorem dropWhile_blank_append {blanks rest : List Char} (hblanks : ∀ c ∈ blanks, isBlank c = true)
    (hrest : ∀ c ∈ rest.head?, isBlank c = false) : (blanks ++ rest).dropWhile isBlank = rest := by
  rw [List.dropWhile_append_of_pos hblanks]
  cases rest with
  | nil => rfl
  | cons c rest => rw [List.dropWhile_cons_of_neg (by simp [hrest c rfl])]

/-- There is at most one core: that which trimming finds. -/
theorem Trims.eq_trim {text core : List Char} (h : Trims text core) : core = trim text := by
  obtain ⟨⟨before, after, rfl, hbefore, hafter⟩, hfirst, hlast⟩ := h
  unfold trim
  cases core with
  | nil =>
    -- If nothing is left, the text is blank from both sides, and the blanks before it and after it
    -- are not told apart.
    have hall : ∀ c ∈ before ++ after, isBlank c = true :=
      fun c hc => (List.mem_append.1 hc).elim (hbefore c) (hafter c)
    have hdropped : (before ++ after).dropWhile isBlank = [] := by
      rw [← List.append_nil (before ++ after)]
      exact dropWhile_blank_append hall nofun
    simp [hdropped]
  | cons c core =>
    -- From the left the first blanks go, from the right the last.
    have hleft : (before ++ (c :: core) ++ after).dropWhile isBlank = c :: core ++ after := by
      rw [List.append_assoc]
      exact dropWhile_blank_append hbefore hfirst
    have hright :
        (after.reverse ++ (c :: core).reverse).dropWhile isBlank = (c :: core).reverse := by
      refine dropWhile_blank_append (fun d hd => hafter d (List.mem_reverse.1 hd)) ?_
      rw [List.head?_reverse]
      exact hlast
    rw [hleft, List.reverse_append, hright, List.reverse_reverse]

/-- What is left after dropping blanks does not begin with one. -/
theorem head?_dropWhile_blank (text : List Char) :
    ∀ c ∈ (text.dropWhile isBlank).head?, isBlank c = false := by
  intro c hc
  have hhead := List.head?_dropWhile_not isBlank text
  rw [Option.mem_def.1 hc] at hhead
  exact hhead

/-- Trimming finds the core of a text. -/
theorem trims_trim (text : List Char) : Trims text (trim text) := by
  -- The blanks at the end, which are found from behind.
  have hsplit : text.dropWhile isBlank =
      trim text ++ ((text.dropWhile isBlank).reverse.takeWhile isBlank).reverse := by
    unfold trim
    rw [← List.reverse_append, List.takeWhile_append_dropWhile, List.reverse_reverse]
  refine ⟨⟨text.takeWhile isBlank, ((text.dropWhile isBlank).reverse.takeWhile isBlank).reverse,
    ?_, fun c => List.mem_takeWhile_imp, ?_⟩, ?_, ?_⟩
  · rw [List.append_assoc, ← hsplit, List.takeWhile_append_dropWhile]
  · exact fun c hc => List.mem_takeWhile_imp (List.mem_reverse.1 hc)
  · -- What is left starts where the text does once its first blanks are gone.
    intro c hc
    refine head?_dropWhile_blank text c ?_
    rw [hsplit, List.head?_append, Option.mem_def.1 hc]
    rfl
  · unfold trim
    rw [List.getLast?_reverse]
    exact head?_dropWhile_blank _

theorem trims_iff {text core : List Char} : Trims text core ↔ core = trim text :=
  ⟨Trims.eq_trim, fun h => h ▸ trims_trim text⟩

end RecordMachine.Text
