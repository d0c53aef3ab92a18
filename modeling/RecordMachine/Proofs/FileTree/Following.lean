import Mathlib.Data.List.TakeWhile
import RecordMachine.FileTree
import RecordMachine.Proofs.Text.Octets

/-!
# Following paths

Where the pieces of a path lead is found one piece after the other (`Entry.follow_append`). Idle
pieces before a name make no difference to where the name leads (`Entry.follow_idle_append`), and a
path whose pieces never go up leads to the place of its pieces that are not idle
(`Entry.eq_of_follow`). So a path leads to something of a name exactly if it leads to a directory
that holds the name (`FileTree.find_join`).

The parent of a path is a matter of its text: it is the path without its last piece, and without the
idle pieces around it (`Path.pieces_of_parent?`).
-/

namespace RecordMachine

/-! ## Pieces one after the other -/

/-- The name can be that of an entry: it leads neither nowhere nor up, and it is not too long. -/
structure IsEntryName (name : String) : Prop where
  busy : Path.isIdle name = false
  ne_up : name ≠ ".."
  short : name.utf8ByteSize ≤ nameLimit

namespace Entry

/-- At the place is a directory that has something of the name. -/
def Holds (root : Entry) (place : List String) (name : String) : Prop :=
  ∃ entries, root.get? place = some (.directory entries) ∧ (entries.lookup name).isSome = true

instance (root : Entry) (place : List String) (name : String) : Decidable (root.Holds place name) :=
  match h : root.get? place with
  | some (.directory entries) =>
    if hname : (entries.lookup name).isSome = true then .isTrue ⟨entries, h, hname⟩
    else .isFalse fun ⟨_, hplace, hsome⟩ => by
      cases h.symm.trans hplace
      exact hname hsome
  | some (.file _) => .isFalse fun ⟨_, hplace, _⟩ => nomatch h.symm.trans hplace
  | none => .isFalse fun ⟨_, hplace, _⟩ => nomatch h.symm.trans hplace

variable {root : Entry} {place found pieces : List String} {name : String}

/-- A place below a place is looked up from there. Induction on the first names. -/
theorem get?_append (root : Entry) (place more : List String) :
    root.get? (place ++ more) = (root.get? place).bind (get? more) := by
  induction place generalizing root with
  | nil => rfl
  | cons name place ih =>
    cases root with
    | file => rfl
    | directory entries =>
      show (entries.lookup name).bind (get? (place ++ more)) =
        ((entries.lookup name).bind (get? place)).bind (get? more)
      cases entries.lookup name with
      | none => rfl
      | some e => exact ih e

theorem Holds.exists_entry (h : root.Holds place name) :
    ∃ entry, root.get? (place ++ [name]) = some entry := by
  obtain ⟨entries, hplace, hname⟩ := h
  obtain ⟨entry, hentry⟩ := Option.isSome_iff_exists.1 hname
  refine ⟨entry, ?_⟩
  rw [get?_append, hplace]
  show (entries.lookup name).bind (get? []) = some entry
  rw [hentry]
  rfl

/-- A path is followed piece by piece. Induction on the first pieces: an error in one of them ends
both sides. -/
theorem follow_append (root : Entry) (place pieces more : List String) :
    root.follow place (pieces ++ more) =
      (root.follow place pieces).bind fun mid => root.follow mid more := by
  induction pieces generalizing place with
  | nil => rfl
  | cons piece pieces ih =>
    rw [List.cons_append, follow, follow]
    split
    · by_cases hidle : Path.isIdle piece = true
      · rw [if_pos hidle, if_pos hidle]
        exact ih place
      · rw [if_neg hidle, if_neg hidle]
        by_cases hup : piece = ".."
        · rw [if_pos hup, if_pos hup]
          exact ih place.dropLast
        · rw [if_neg hup, if_neg hup]
          split
          · rfl
          · split
            · exact ih (place ++ [piece])
            · rfl
    · rfl
    · rfl

/-- A path leads somewhere exactly if its front leads somewhere from where the rest goes on. -/
theorem follow_append_eq_ok {more : List String} :
    root.follow place (pieces ++ more) = .ok found ↔
      ∃ mid, root.follow place pieces = .ok mid ∧ root.follow mid more = .ok found := by
  rw [follow_append]
  cases root.follow place pieces with
  | error e => simp [Except.bind]
  | ok mid =>
    constructor
    · intro h
      exact ⟨mid, rfl, h⟩
    · rintro ⟨_, ⟨⟩, h⟩
      exact h

/-- The idle pieces before a name are of no account: the name asks for a directory just as they
do. -/
theorem follow_idle_append {idles : List String} (hidle : ∀ x ∈ idles, Path.isIdle x = true) :
    root.follow place (idles ++ [name]) = root.follow place [name] := by
  induction idles with
  | nil => rfl
  | cons x idles ih =>
    have hrest := ih fun y hy => hidle y (List.mem_cons_of_mem x hy)
    rw [List.cons_append, follow, hrest]
    -- An idle piece asks for a directory, and so does the name.
    cases hplace : root.get? place with
    | none => rw [follow, hplace]
    | some e =>
      cases e with
      | file => rw [follow, hplace]
      | directory entries => exact if_pos (hidle x List.mem_cons_self)

/-- One name leads on exactly if it is in the directory. -/
theorem follow_name_eq_ok (hname : IsEntryName name) :
    root.follow place [name] = .ok found ↔ root.Holds place name ∧ found = place ++ [name] := by
  rw [follow]
  unfold Holds
  cases root.get? place with
  | none => simp
  | some e =>
    cases e with
    | file => simp
    | directory entries =>
      have hshort : ¬nameLimit < name.utf8ByteSize := Nat.not_lt.2 hname.short
      simp only [hname.busy, Bool.false_eq_true, if_false, hname.ne_up, hshort]
      constructor
      · intro h
        split at h
        · next hentry =>
          cases h
          exact ⟨⟨entries, rfl, hentry⟩, rfl⟩
        · cases h
      · rintro ⟨⟨_, ⟨⟩, hentry⟩, rfl⟩
        rw [if_pos hentry]
        rfl

/-- A path that never goes up leads to the place that its pieces name, without those that are idle.
Induction on the pieces. -/
theorem eq_of_follow (hup : ".." ∉ pieces) (h : root.follow place pieces = .ok found) :
    found = place ++ pieces.filter fun x => !Path.isIdle x := by
  induction pieces generalizing place with
  | nil =>
    cases h
    rw [List.filter_nil, List.append_nil]
  | cons piece pieces ih =>
    rw [List.mem_cons, not_or] at hup
    rw [follow] at h
    split at h
    · by_cases hidle : Path.isIdle piece = true
      · rw [if_pos hidle] at h
        rw [ih hup.2 h, List.filter_cons_of_neg (by simp [hidle])]
      · rw [if_neg hidle, if_neg (Ne.symm hup.1)] at h
        split at h
        · cases h
        · split at h
          · rw [ih hup.2 h, List.filter_cons_of_pos (by simp [hidle]), List.append_assoc]
            rfl
          · cases h
    · cases h
    · cases h

end Entry

/-! ## Texts of paths -/

namespace Text

theorem utf8ByteSize_eq (s : String) : s.utf8ByteSize = (octets s.toList).length := by
  rw [← String.size_toByteArray, ← String.utf8Encode_toList]
  exact List.size_toByteArray

/-- A text of fewer characters has fewer octets. -/
theorem octets_sublist {few many : List Char} (h : few.Sublist many) :
    (octets few).Sublist (octets many) := by
  induction h with
  | slnil => exact List.Sublist.refl _
  | cons c _ ih => exact ih.trans (List.sublist_append_right _ _)
  | cons_cons c _ ih => exact ih.append_left _

end Text

namespace Path

/-- The path can be given to the file system: it has no null character and is not too long. -/
structure Fits (p : Path) : Prop where
  noNull : '\x00' ∉ p.text.toList
  short : p.text.utf8ByteSize ≤ pathLimit

/-- Leaving out texts between separators leaves out characters. Induction on what is left out. -/
theorem intercalate_sublist {separator : List Char} {few many : List (List Char)}
    (h : few.Sublist many) :
    (separator.intercalate few).Sublist (separator.intercalate many) := by
  induction h with
  | slnil => exact List.Sublist.refl _
  | @cons few many a h ih =>
    -- A list that is left out takes the separator behind it along, if it has one.
    cases many with
    | nil =>
      rw [List.sublist_nil.1 h]
      exact List.nil_sublist _
    | cons b many =>
      rw [List.intercalate_cons_cons]
      exact ih.trans (List.sublist_append_right _ _)
  | @cons_cons few many a h ih =>
    cases many with
    | nil =>
      rw [List.sublist_nil.1 h]
    | cons b many =>
      rw [List.intercalate_cons_cons]
      cases few with
      | nil =>
        rw [List.intercalate_singleton, List.append_assoc]
        exact List.sublist_append_left _ _
      | cons c few =>
        rw [List.intercalate_cons_cons]
        exact ih.append_left _

/-- The characters of a path: a slash if it is absolute, and the pieces with slashes between
them. -/
theorem toList_text (p : Path) :
    p.text.toList =
      (if p.absolute then ['/'] else []) ++ ['/'].intercalate (p.pieces.map String.toList) := by
  unfold text
  rw [String.toList_append, String.toList_intercalate]
  cases p.absolute <;> rfl

/-- A path with fewer pieces fits as well: it has no other characters, and not more of them. -/
theorem Fits.of_sublist {p q : Path} (hfits : p.Fits) (habsolute : q.absolute = p.absolute)
    (hpieces : q.pieces.Sublist p.pieces) : q.Fits := by
  have htext : q.text.toList.Sublist p.text.toList := by
    rw [toList_text, toList_text, habsolute]
    exact (intercalate_sublist (hpieces.map _)).append_left _
  refine ⟨fun hnull => hfits.noNull (htext.subset hnull), ?_⟩
  calc q.text.utf8ByteSize
      = (Text.octets q.text.toList).length := Text.utf8ByteSize_eq _
    _ ≤ (Text.octets p.text.toList).length := (Text.octets_sublist htext).length_le
    _ = p.text.utf8ByteSize := (Text.utf8ByteSize_eq _).symm
    _ ≤ pathLimit := hfits.short

/-! ## Parents -/

/-- Only idle pieces are trimmed off. -/
theorem pieces_eq_trimmed_append (p : Path) :
    ∃ idles, p.pieces = p.trimmed ++ idles ∧ ∀ x ∈ idles, isIdle x = true := by
  have hsplit : p.pieces = (p.pieces.reverse.dropWhile isIdle).reverse ++
      (p.pieces.reverse.takeWhile isIdle).reverse := by
    rw [← List.reverse_append, List.takeWhile_append_dropWhile, List.reverse_reverse]
  have hidles : ∀ x ∈ (p.pieces.reverse.takeWhile isIdle).reverse, isIdle x = true := by
    intro x hx
    exact List.mem_takeWhile_imp (List.mem_reverse.1 hx)
  unfold trimmed
  dsimp only
  split
  · -- A dot alone at the start of a relative path is kept, although it is idle.
    next hdot =>
    simp only [Bool.and_eq_true, List.isEmpty_iff, beq_iff_eq] at hdot
    obtain ⟨⟨hnone, -⟩, hhead⟩ := hdot
    obtain ⟨rest, hrest⟩ := List.head?_eq_some_iff.1 hhead
    rw [hnone, List.nil_append] at hsplit
    refine ⟨rest, hrest, fun x hx => hidles x ?_⟩
    rw [← hsplit, hrest]
    exact List.mem_cons_of_mem _ hx
  · exact ⟨_, hsplit, hidles⟩

/-- A path without a parent has only idle pieces. -/
theorem isIdle_of_parent?_eq_none {p : Path} (h : p.parent? = none) :
    ∀ x ∈ p.pieces, isIdle x = true := by
  obtain ⟨idles, hpieces, hidles⟩ := p.pieces_eq_trimmed_append
  unfold parent? at h
  split at h
  · next hnone =>
    rw [hpieces, hnone]
    exact hidles
  · cases h

/-- The parent is the path without a piece and without the idle pieces on both sides of it. -/
theorem pieces_of_parent? {p q : Path} (h : p.parent? = some q) :
    q.absolute = p.absolute ∧ ∃ before x after, p.pieces = q.pieces ++ (before ++ x :: after) ∧
      (∀ y ∈ before, isIdle y = true) ∧ ∀ y ∈ after, isIdle y = true := by
  obtain ⟨after, hpieces, hafter⟩ := p.pieces_eq_trimmed_append
  unfold parent? at h
  split at h
  · cases h
  · next hsome =>
    cases h
    refine ⟨rfl, ?_⟩
    obtain ⟨before, hfront, hbefore⟩ :=
      pieces_eq_trimmed_append ⟨p.absolute, p.trimmed.dropLast⟩
    refine ⟨before, p.trimmed.getLast hsome, after, ?_, hbefore, hafter⟩
    have htrimmed : p.trimmed = _ ++ [p.trimmed.getLast hsome] :=
      (List.dropLast_append_getLast hsome).symm
    -- What is left of the trimmed path is trimmed once more.
    rw [show p.trimmed.dropLast = _ from hfront] at htrimmed
    rw [hpieces]
    nth_rewrite 1 [htrimmed]
    simp only [List.append_assoc, List.singleton_append]

/-- The pieces of a parent are the first pieces of the path. -/
theorem prefix_of_parent? {p q : Path} (h : p.parent? = some q) : q.pieces <+: p.pieces := by
  obtain ⟨-, before, x, after, hpieces, -, -⟩ := pieces_of_parent? h
  exact ⟨before ++ x :: after, hpieces.symm⟩

/-- A parent has fewer pieces, so that going up comes to an end. -/
theorem length_lt_of_parent? {p q : Path} (h : p.parent? = some q) :
    q.pieces.length < p.pieces.length := by
  obtain ⟨-, before, x, after, hpieces, -, -⟩ := pieces_of_parent? h
  rw [hpieces, List.length_append, List.length_append, List.length_cons]
  omega

/-! ## Entries of a directory -/

theorem absolute_join (p : Path) (name : String) : (p.join name).absolute = p.absolute := by
  unfold join
  split <;> rfl

/-- One empty piece at the end of a path gives way to a name that is joined to it. -/
theorem pieces_join (p : Path) (name : String) :
    ∃ front, (p.join name).pieces = front ++ [name] ∧
      (p.pieces = front ∨ p.pieces = front ++ [""]) := by
  unfold join
  split
  · next hlast =>
    obtain ⟨front, hfront⟩ := List.getLast?_eq_some_iff.1 hlast
    refine ⟨front, ?_, .inr hfront⟩
    rw [hfront, List.dropLast_concat]
  · exact ⟨p.pieces, rfl, .inl rfl⟩

/-- Paths on the way to a directory are no longer than its own. -/
theorem Fits.join_of_prefix {p q : Path} {name : String} (hfits : (p.join name).Fits)
    (habsolute : q.absolute = p.absolute) (hpieces : q.pieces <+: p.pieces) :
    (q.join name).Fits := by
  obtain ⟨front, hjoin, hfront⟩ := p.pieces_join name
  by_cases hsame : q.pieces = p.pieces
  · have heq : q = p := by
      cases q
      cases p
      cases habsolute
      cases hsame
      rfl
    rw [heq]
    exact hfits
  · -- A proper front of the path ends before the empty piece, if there is one at all.
    have hprefix : q.pieces <+: front := by
      rcases hfront with hfront | hfront
      · rw [← hfront]
        exact hpieces
      · rw [hfront] at hpieces hsame
        exact (List.prefix_concat_iff.1 hpieces).resolve_left hsame
    apply hfits.of_sublist
    · rw [absolute_join, absolute_join, habsolute]
    · obtain ⟨stem, hstem, hq⟩ := q.pieces_join name
      have hsub : stem.Sublist q.pieces := by
        rcases hq with hq | hq
        · rw [hq]
        · rw [hq]
          exact List.sublist_append_left stem [""]
      rw [hstem, hjoin]
      exact (hsub.trans hprefix.sublist).append_right [name]

end Path

namespace FileTree

/-- The place that a path starts from. -/
def base (t : FileTree) (p : Path) : List String :=
  if p.absolute then [] else t.workingDirectory

def Leads (t : FileTree) (p : Path) (place : List String) : Prop :=
  t.root.follow (t.base p) p.pieces = .ok place

/-- The path leads to a directory, at the place, that has something of the name. -/
structure Offers (t : FileTree) (p : Path) (name : String) (place : List String) : Prop where
  leads : t.Leads p place
  holds : t.root.Holds place name

variable {t : FileTree} {p : Path} {name : String} {place : List String}

/-- A directory is offered by the path of the entry that it has. -/
theorem offers_iff (hname : IsEntryName name) :
    t.Offers p name place ↔
      t.root.follow (t.base p) (p.pieces ++ [name]) = .ok (place ++ [name]) := by
  rw [Entry.follow_append_eq_ok]
  constructor
  · intro h
    exact ⟨place, h.leads, (Entry.follow_name_eq_ok hname).2 ⟨h.holds, rfl⟩⟩
  · rintro ⟨mid, hmid, hentry⟩
    obtain ⟨hholds, hplace⟩ := (Entry.follow_name_eq_ok hname).1 hentry
    obtain rfl := List.append_cancel_right hplace
    exact ⟨hmid, hholds⟩

/-- Idle pieces at the end of a path make no difference to the directory that it offers. -/
theorem offers_append_idle {absolute : Bool} {pieces idles : List String} (hname : IsEntryName name)
    (hidle : ∀ x ∈ idles, Path.isIdle x = true) :
    t.Offers ⟨absolute, pieces ++ idles⟩ name place ↔ t.Offers ⟨absolute, pieces⟩ name place := by
  rw [offers_iff hname, offers_iff hname]
  show t.root.follow (t.base ⟨absolute, pieces⟩) (pieces ++ idles ++ [name]) = _ ↔
    t.root.follow (t.base ⟨absolute, pieces⟩) (pieces ++ [name]) = _
  rw [List.append_assoc, Entry.follow_append_eq_ok, Entry.follow_append_eq_ok]
  simp only [Entry.follow_idle_append hidle]

/-- A path that never goes up leads, as far as each of its pieces, to the place named so far. -/
theorem Leads.take {pieces : List String} (h : t.Leads p place) (hup : ".." ∉ p.pieces)
    (hpieces : pieces <+: p.pieces) :
    t.Leads ⟨p.absolute, pieces⟩ (t.base p ++ pieces.filter fun x => !Path.isIdle x) := by
  obtain ⟨rest, hrest⟩ := hpieces
  unfold Leads at h
  rw [← hrest] at h hup
  obtain ⟨mid, hmid, -⟩ := Entry.follow_append_eq_ok.1 h
  have heq := Entry.eq_of_follow (fun hmem => hup (List.mem_append_left rest hmem)) hmid
  rw [← heq]
  exact hmid

/-- The entry of a name is found by a path exactly if the path offers a directory that has it. -/
theorem find_join {entry : Entry} (hname : IsEntryName name) (hfits : (p.join name).Fits) :
    t.find (p.join name) = .ok entry ↔
      ∃ place, t.Offers p name place ∧ t.root.get? (place ++ [name]) = some entry := by
  obtain ⟨front, hjoin, hpieces⟩ := p.pieces_join name
  -- The empty piece that gives way to the name is idle.
  have hoffers : ∀ place, t.Offers p name place ↔ t.Offers ⟨p.absolute, front⟩ name place := by
    intro place
    rcases hpieces with rfl | hempty
    · rfl
    · have hidle : ∀ x ∈ [""], Path.isIdle x = true := by decide
      have hsame : (⟨p.absolute, front ++ [""]⟩ : Path) = p := by rw [← hempty]
      rw [← hsame]
      exact offers_append_idle hname hidle
  have hnull : ¬(p.join name).text.toList.contains '\x00' = true := by
    rw [List.contains_iff_mem]
    exact hfits.noNull
  have hsome : ¬(!(p.join name).absolute && (p.join name).pieces.isEmpty) = true := by
    rw [hjoin]
    simp
  unfold find
  rw [if_neg hnull, if_neg (Nat.not_lt.2 hfits.short), if_neg hsome, hjoin, p.absolute_join]
  simp only [hoffers, offers_iff hname]
  show (t.root.follow (t.base p) (front ++ [name]) >>= _) = _ ↔
    ∃ place, t.root.follow (t.base p) (front ++ [name]) = _ ∧ _
  cases hfollow : t.root.follow (t.base p) (front ++ [name]) with
  | error e => simp [bind, Except.bind]
  | ok found =>
    obtain ⟨place, -, hentry⟩ := Entry.follow_append_eq_ok.1 hfollow
    obtain ⟨-, rfl⟩ := (Entry.follow_name_eq_ok hname).1 hentry
    cases hget : t.root.get? (place ++ [name]) with
    | none => simp [bind, Except.bind, hget]
    | some e => simp [bind, Except.bind, pure, Except.pure, hget]

end FileTree

end RecordMachine
