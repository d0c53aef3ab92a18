import Mathlib.Data.List.SplitBy
import RecordMachine.Console
import RecordMachine.Proofs.Text.Octets

/-!
# Lines of the input

The input of a console is cut after each newline (`Console.pieces`). A line is read by taking the
first piece off the input (`Console.pieces_eq_cons`), and its text is what the piece bears without
its end (`Console.Bears`): the newline, and one carriage return right before it.

Reading decodes a piece before it takes its end away, while pieces are made of octets. The two agree
since no octet of a character beyond ASCII is that of a newline or a carriage return
(`Text.octets_eq_concat`).
-/

namespace RecordMachine

namespace Console

/-! ## Pieces -/

/-- The octet that may stand before the newline at the end of a line. -/
def carriageReturn : UInt8 := 13

/-- The input, cut after each newline. -/
def pieces (input : List UInt8) : List (List UInt8) :=
  input.splitBy fun b _ => b != newline

/-- The line of these octets is what a piece of the input bears: a newline ends it, or a carriage
return and a newline do, or nothing does. -/
inductive Bears (line : List UInt8) : List UInt8 → Prop where
  | newline (hlast : line.getLast? ≠ some carriageReturn) : Bears line (line ++ [Console.newline])
  | returned : Bears line (line ++ [carriageReturn, Console.newline])
  | unended (hnone : Console.newline ∉ line) : Bears line line

/-- Nothing is lost where the input is cut. -/
theorem flatten_pieces (input : List UInt8) : (pieces input).flatten = input :=
  List.flatten_splitBy _ input

@[simp] theorem pieces_nil : pieces [] = [] := rfl

/-- An input without newlines is a single piece, unless it is empty. -/
theorem pieces_of_not_mem {body : List UInt8} (hbody : newline ∉ body) (hne : body ≠ []) :
    pieces body = [body] := by
  apply List.splitBy_of_isChain hne
  apply List.Pairwise.isChain
  rw [List.pairwise_iff_forall_sublist]
  intro x y hsub
  have hx : x ∈ body := hsub.subset List.mem_cons_self
  simpa using ne_of_mem_of_not_mem hx hbody

/-- The first newline ends the first piece. -/
theorem pieces_append {body : List UInt8} (hbody : newline ∉ body) (rest : List UInt8) :
    pieces (body ++ newline :: rest) = (body ++ [newline]) :: pieces rest := by
  have hsplit : body ++ newline :: rest = (body ++ [newline]) ++ rest := by simp
  -- Inside the first piece there is nowhere to cut: a newline is only at its end.
  have hchain : (body ++ [newline]).IsChain fun x y => (x != newline) = true := by
    apply List.Pairwise.isChain
    rw [List.pairwise_append]
    refine ⟨?_, List.pairwise_singleton _ _, ?_⟩
    · rw [List.pairwise_iff_forall_sublist]
      intro x y hsub
      have hx : x ∈ body := hsub.subset List.mem_cons_self
      simpa using ne_of_mem_of_not_mem hx hbody
    · intro x hx _ _
      simpa using ne_of_mem_of_not_mem hx hbody
  unfold pieces
  rw [hsplit, List.splitBy_append (by simp), List.splitBy_of_isChain (by simp) hchain]
  rfl

/-! ## Taking a piece off the input -/

/-- Without a newline, reading takes all that is left. -/
theorem splitLine_of_not_mem {body : List UInt8} (hbody : newline ∉ body) :
    splitLine body = (body, []) := by
  induction body with
  | nil => rfl
  | cons b body ih =>
    have hb : b ≠ newline := fun h => hbody (h ▸ List.mem_cons_self)
    rw [splitLine, if_neg hb, ih (fun h => hbody (List.mem_cons_of_mem b h))]

/-- Reading takes the input up to its first newline, and the newline with it. Induction on what
stands before it. -/
theorem splitLine_append {body : List UInt8} (hbody : newline ∉ body) (rest : List UInt8) :
    splitLine (body ++ newline :: rest) = (body ++ [newline], rest) := by
  induction body with
  | nil => simp [splitLine]
  | cons b body ih =>
    have hb : b ≠ newline := fun h => hbody (h ▸ List.mem_cons_self)
    rw [List.cons_append, splitLine, if_neg hb, ih (fun h => hbody (List.mem_cons_of_mem b h))]
    rfl

/-- An input has no newline, or it has a first one. -/
theorem newline_cases (input : List UInt8) :
    newline ∉ input ∨ ∃ body rest, newline ∉ body ∧ input = body ++ newline :: rest := by
  by_cases h : newline ∈ input
  · obtain ⟨body, rest, hinput, hbody⟩ := List.eq_append_cons_of_mem h
    exact .inr ⟨body, rest, hbody, hinput⟩
  · exact .inl h

/-- What is read from an input is its first piece, and the others are left. -/
theorem pieces_eq_cons {input : List UInt8} (hinput : input ≠ []) :
    pieces input = (splitLine input).1 :: pieces (splitLine input).2 := by
  rcases newline_cases input with hnone | ⟨body, rest, hbody, rfl⟩
  · rw [splitLine_of_not_mem hnone, pieces_of_not_mem hnone hinput, pieces_nil]
  · rw [splitLine_append hbody, pieces_append hbody]

/-- Reading takes one piece off the input. At its end there is none to take. -/
theorem pieces_splitLine (input : List UInt8) :
    pieces (splitLine input).2 = (pieces input).tail := by
  by_cases hinput : input = []
  · rw [hinput]
    rfl
  · rw [pieces_eq_cons hinput, List.tail_cons]

/-- The octets that reading takes are those of the first piece, or none at the end of the input. -/
theorem splitLine_fst (input : List UInt8) :
    (splitLine input).1 = ((pieces input).head?).getD [] := by
  by_cases hinput : input = []
  · rw [hinput]
    rfl
  · rw [pieces_eq_cons hinput]
    rfl

/-- A newline is nowhere in what is read but at its end. -/
theorem splitLine_fst_cases (input : List UInt8) :
    newline ∉ (splitLine input).1 ∨ ∃ body, (splitLine input).1 = body ++ [newline] := by
  rcases newline_cases input with hnone | ⟨body, rest, hbody, rfl⟩
  · rw [splitLine_of_not_mem hnone]
    exact .inl hnone
  · rw [splitLine_append hbody]
    exact .inr ⟨body, rfl⟩

/-! ## The line of a piece -/

theorem Bears.unique {line line' piece : List UInt8} (h : Bears line piece)
    (h' : Bears line' piece) : line = line' := by
  -- Whether a newline is at the end, and whether a carriage return is before it, tells the rules
  -- apart.
  have hreturned : ∀ {a b : List UInt8}, a.getLast? ≠ some carriageReturn →
      a ++ [Console.newline] ≠ b ++ [carriageReturn, Console.newline] := by
    intro a b ha heq
    have hsame : a = b ++ [carriageReturn] :=
      List.append_cancel_right (heq.trans (List.append_assoc b [_] [_]).symm)
    rw [hsame, List.getLast?_concat] at ha
    exact ha rfl
  cases h with
  | newline hlast =>
    generalize hpiece : line ++ [Console.newline] = piece at h'
    cases h' with
    | newline _ => exact List.append_cancel_right hpiece
    | returned => exact absurd hpiece (hreturned hlast)
    | unended hnone => exact absurd (hpiece ▸ List.mem_concat_self) hnone
  | returned =>
    generalize hpiece : line ++ [carriageReturn, Console.newline] = piece at h'
    cases h' with
    | newline hlast => exact absurd hpiece.symm (hreturned hlast)
    | returned => exact List.append_cancel_right hpiece
    | unended hnone => exact absurd (hpiece ▸ by simp) hnone
  | unended hnone =>
    cases h' with
    | newline _ => exact absurd List.mem_concat_self hnone
    | returned => exact absurd (by simp) hnone
    | unended _ => rfl

theorem octets_concat_newline (chars : List Char) :
    Text.octets (chars ++ ['\n']) = Text.octets chars ++ [newline] := by
  rw [Text.octets_append]
  rfl

theorem octets_concat_return (chars : List Char) :
    Text.octets (chars ++ ['\r']) = Text.octets chars ++ [carriageReturn] := by
  rw [Text.octets_append]
  rfl

/-- Taking the end away from a decoded piece leaves the line that the piece bears. -/
theorem bears_withoutEnd {chars : List Char} {piece : List UInt8}
    (hchars : Text.octets chars = piece)
    (hpiece : newline ∉ piece ∨ ∃ body, piece = body ++ [newline]) :
    Bears (Text.octets (withoutEnd chars)) piece := by
  unfold withoutEnd
  split
  · next rest hrest =>
    have hshape : chars = rest.reverse ++ ['\r'] ++ ['\n'] := by
      rw [← List.reverse_reverse chars, hrest]
      simp
    rw [← hchars, hshape, octets_concat_newline, octets_concat_return, List.append_assoc]
    -- The three cases are those of `withoutEnd`: a carriage return and a newline, a newline alone,
    -- or neither of them.
    exact .returned
  · next rest hmore hrest =>
    have hshape : chars = rest.reverse ++ ['\n'] := by
      rw [← List.reverse_reverse chars, hrest]
      simp
    rw [← hchars, hshape, octets_concat_newline]
    apply Bears.newline
    intro hlast
    -- A carriage return at the end of the octets is one at the end of the characters.
    obtain ⟨body, hbody⟩ := List.getLast?_eq_some_iff.1 hlast
    obtain ⟨front, hfront, _⟩ := Text.octets_eq_concat (c := '\r') (by decide) hbody
    have hreverse : rest = '\r' :: front.reverse := by
      rw [← List.reverse_reverse rest, hfront]
      simp
    exact hmore front.reverse (by rw [hreverse])
  · next _ hmore =>
    rcases hpiece with hnone | ⟨body, rfl⟩
    · rw [hchars]
      exact .unended hnone
    · obtain ⟨front, hfront, _⟩ := Text.octets_eq_concat (c := '\n') (by decide) hchars
      exact absurd (by rw [hfront]; simp) (hmore front.reverse)

/-! ## Reading a line -/

/-- From an input that can be used, the first piece is taken. If it cannot be decoded, reading
fails; otherwise the line that it bears is read. -/
theorem readLine_cases {c : Console} (husable : c.inputPoisoned = false) :
    c.readLine.2.input = (splitLine c.input).2 ∧
      ((¬ByteArray.IsValidUTF8 ⟨(splitLine c.input).1.toArray⟩ ∧ c.readLine.1 = .error .notUtf8) ∨
        ∃ text : String, ByteArray.IsValidUTF8 ⟨(splitLine c.input).1.toArray⟩ ∧
          c.readLine.1 = .ok text ∧ Bears (Text.octets text.toList) (splitLine c.input).1) := by
  unfold readLine
  rw [husable, if_neg Bool.false_ne_true]
  dsimp only
  cases htext : String.fromUTF8? ⟨(splitLine c.input).1.toArray⟩ with
  | none =>
    refine ⟨rfl, .inl ⟨?_, rfl⟩⟩
    intro hvalid
    rw [String.fromUTF8?, dif_pos hvalid] at htext
    cases htext
  | some text =>
    have hoctets := Text.octets_of_fromUTF8? htext
    refine ⟨rfl, .inr ⟨_, Text.isValidUTF8_iff.2 ⟨_, hoctets⟩, rfl, ?_⟩⟩
    rw [String.toList_ofList]
    exact bears_withoutEnd hoctets (splitLine_fst_cases c.input)

/-! ## Lines that were written -/

/-- The ways of ending a line. -/
def IsEnd (stop : List UInt8) : Prop := stop = [newline] ∨ stop = [carriageReturn, newline]

/-- The line can be told from its end: it has no newline, and no carriage return at its end. -/
def IsLine (line : String) : Prop :=
  '\n' ∉ line.toList ∧ line.toList.getLast? ≠ some '\r'

/-- The input that has these lines, each with the same end. -/
def written (lines : List String) (stop : List UInt8) : List UInt8 :=
  lines.flatMap fun line => Text.octets line.toList ++ stop

/-- No character but the newline has its octet. -/
theorem newline_not_mem_octets {chars : List Char} (h : '\n' ∉ chars) :
    newline ∉ Text.octets chars :=
  fun hmem => h (Text.mem_of_mem_octets (c := '\n') (by decide) hmem)

/-- A line with its end behind it is a piece that bears the line. The carriage return of the end
cannot be confused with one of the line, which has none there. -/
theorem bears_written {line : String} (hline : IsLine line) {stop : List UInt8}
    (hstop : IsEnd stop) :
    Bears (Text.octets line.toList) (Text.octets line.toList ++ stop) := by
  rcases hstop with rfl | rfl
  · apply Bears.newline
    intro hlast
    obtain ⟨body, hbody⟩ := List.getLast?_eq_some_iff.1 hlast
    obtain ⟨front, hfront, _⟩ := Text.octets_eq_concat (c := '\r') (by decide) hbody
    exact hline.2 (by rw [hfront, List.getLast?_concat])
  · exact .returned

/-- A line and its end are the octets of a text. -/
theorem isValidUTF8_written (line : String) {stop : List UInt8} (hstop : IsEnd stop) :
    ByteArray.IsValidUTF8 ⟨(Text.octets line.toList ++ stop).toArray⟩ := by
  rw [Text.isValidUTF8_iff]
  rcases hstop with rfl | rfl
  · exact ⟨line.toList ++ ['\n'], octets_concat_newline _⟩
  · refine ⟨line.toList ++ ['\r'] ++ ['\n'], ?_⟩
    rw [octets_concat_newline, octets_concat_return, List.append_assoc]
    rfl

/-- The pieces of an input are the lines that were written, with their ends. -/
theorem pieces_written {lines : List String} (hlines : ∀ line ∈ lines, IsLine line)
    {stop : List UInt8} (hstop : IsEnd stop) :
    pieces (written lines stop) = lines.map fun line => Text.octets line.toList ++ stop := by
  induction lines with
  | nil => rfl
  | cons line lines ih =>
    obtain ⟨hline, hlines⟩ := List.forall_mem_cons.1 hlines
    have hbody := newline_not_mem_octets hline.1
    have hcons : written (line :: lines) stop
        = Text.octets line.toList ++ stop ++ written lines stop := List.flatMap_cons
    rw [hcons, List.map_cons, ← ih hlines]
    rcases hstop with rfl | rfl
    · rw [List.append_assoc]
      exact pieces_append hbody _
    · -- With two octets at the end, the first newline is still that of this line.
      have hreturn : newline ∉ Text.octets line.toList ++ [carriageReturn] := by
        rw [List.mem_append, not_or]
        exact ⟨hbody, by decide⟩
      have hsplit := pieces_append hreturn (written lines [carriageReturn, newline])
      simpa using hsplit

end Console

end RecordMachine
