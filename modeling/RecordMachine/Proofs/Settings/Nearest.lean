import Mathlib.Data.List.Infix
import RecordMachine.Settings.Layers
import RecordMachine.Proofs.FileTree.Following

/-!
# The nearest project

The project of a directory is looked for upward, from parent to parent. Parents are a matter of the
text of a path, so the walk tries what the path leads to piece by piece: it ends at the last of
these directories that has a project file (`FileTree.Foremost`), and it ends nowhere only if none
has one (`FileTree.isNearest_nearestFrom`).

A path whose pieces never go up leads downward from where it starts, and the last directory on it is
then the nearest one above the place that it leads to (`FileTree.Foremost.eq_of_closest`). The
directories above the working directory are on no path that starts there, though, and a piece that
goes up makes the walk try directories beside the place that the path leads to.
-/

namespace RecordMachine

theorem isEntryName_projectFileName : IsEntryName projectFileName := ⟨rfl, by decide, by decide⟩

namespace FileTree

/-! ## The last directory on a path -/

/-- Of the directories that the path leads through, `dir` leads to the last that has a project
file. -/
structure Foremost (t : FileTree) (start dir : Path) (found : List String) : Prop where
  absolute : dir.absolute = start.absolute
  within : dir.pieces <+: start.pieces
  offers : t.Offers dir projectFileName found
  last : ∀ pieces place, dir.pieces <+: pieces → pieces <+: start.pieces →
    t.Offers ⟨start.absolute, pieces⟩ projectFileName place → place = found

variable {t : FileTree} {start dir p q : Path} {place found : List String}

/-- Between a path and its parent no directory is left out: one that the path leads through is that
of the path, or one that the parent leads through. -/
theorem offers_of_parent? {pieces : List String} (hparent : p.parent? = some q)
    (hpieces : pieces <+: p.pieces) (h : t.Offers ⟨p.absolute, pieces⟩ projectFileName place) :
    t.Offers p projectFileName place ∨
      ∃ kept, (kept = pieces ∨ kept = q.pieces) ∧ kept <+: q.pieces ∧
        t.Offers ⟨q.absolute, kept⟩ projectFileName place := by
  obtain ⟨habsolute, before, x, after, hsplit, hbefore, hafter⟩ := Path.pieces_of_parent? hparent
  obtain ⟨rest, hrest⟩ := hpieces
  rw [habsolute]
  -- The directory is named by some front of the path: one within the parent's pieces, or one
  -- beyond.
  rcases List.append_eq_append_iff.1 (hrest.trans hsplit) with
    ⟨more, hmore, -⟩ | ⟨kept, hkept, hrest'⟩
  · exact .inr ⟨pieces, .inl rfl, ⟨more, hmore.symm⟩, h⟩
  · -- Beyond the parent's own pieces there is one that is not idle: either it is still to come, and
    -- the directory is the parent's, or only idle ones are, and it is that of the path.
    have hcases : (∀ y ∈ kept, Path.isIdle y = true) ∨ ∀ y ∈ rest, Path.isIdle y = true := by
      rcases List.append_eq_append_iff.1 hrest' with ⟨more, rfl, hafter'⟩ | ⟨more, rfl, -⟩
      · cases more with
        | nil => exact .inl (by simpa using hbefore)
        | cons y more =>
          right
          intro z hz
          apply hafter
          rw [(List.cons.inj hafter').2]
          exact List.mem_append_right more hz
      · exact .inl fun y hy => hbefore y (List.mem_append_left more hy)
    rcases hcases with hidle | hidle
    · rw [hkept, offers_append_idle isEntryName_projectFileName hidle] at h
      exact .inr ⟨q.pieces, .inr rfl, List.prefix_refl _, h⟩
    · rw [← offers_append_idle isEntryName_projectFileName hidle, hrest] at h
      exact .inl h

/-- If a path has no parent, all directories that it leads through are the one where it starts. -/
theorem offers_of_parent?_eq_none {pieces : List String} (hparent : p.parent? = none)
    (hpieces : pieces <+: p.pieces) (h : t.Offers ⟨p.absolute, pieces⟩ projectFileName place) :
    t.Offers p projectFileName place := by
  obtain ⟨rest, hrest⟩ := hpieces
  -- Without a parent there are only idle pieces, and these lead nowhere else.
  have hidle : ∀ x ∈ rest, Path.isIdle x = true := by
    intro x hx
    apply Path.isIdle_of_parent?_eq_none hparent
    rw [← hrest]
    exact List.mem_append_right pieces hx
  rw [← offers_append_idle isEntryName_projectFileName hidle, hrest] at h
  exact h

/-! ## The walk -/

/-- What the walk should come to: the last directory on the path that has a project file, and
nothing only if none has one. -/
def IsNearest (t : FileTree) (start : Path) : Option Path → Prop
  | some dir => ∃ found, t.Foremost start dir found
  | none => ∀ pieces place, pieces <+: start.pieces →
      ¬t.Offers ⟨start.absolute, pieces⟩ projectFileName place

/-- Whether a directory has a project file is asked by looking for the file. -/
theorem contains_join_iff (hfits : (p.join projectFileName).Fits) :
    t.contains (p.join projectFileName) = true ↔ ∃ place, t.Offers p projectFileName place := by
  unfold contains
  constructor
  · intro h
    cases hfind : t.find (p.join projectFileName) with
    | error e =>
      rw [hfind] at h
      cases h
    | ok entry =>
      obtain ⟨place, hoffers, -⟩ := (find_join isEntryName_projectFileName hfits).1 hfind
      exact ⟨place, hoffers⟩
  · rintro ⟨place, hoffers⟩
    obtain ⟨entry, hentry⟩ := hoffers.holds.exists_entry
    rw [(find_join isEntryName_projectFileName hfits).2 ⟨place, hoffers, hentry⟩]
    rfl

/-- A path that offers a project is where the walk from it ends. -/
theorem Offers.foremost (h : t.Offers start projectFileName found) :
    t.Foremost start start found where
  absolute := rfl
  within := List.prefix_refl _
  offers := h
  last := by
    intro pieces place hlong hshort hplace
    obtain rfl := hshort.eq_of_length_le hlong.length_le
    have hsame : Except.ok place = Except.ok found := hplace.leads.symm.trans h.leads
    exact Except.ok.inj hsame

/-- If a path offers no project, the walk from it is that from its parent. -/
theorem IsNearest.of_parent? {result : Option Path} (hparent : p.parent? = some q)
    (hnone : ∀ place, ¬t.Offers p projectFileName place) (h : t.IsNearest q result) :
    t.IsNearest p result := by
  have habsolute := (Path.pieces_of_parent? hparent).1
  have hprefix := Path.prefix_of_parent? hparent
  cases result with
  | none =>
    intro pieces place hpieces hoffers
    rcases offers_of_parent? hparent hpieces hoffers with hp | ⟨kept, -, hkept, hq⟩
    · exact hnone place hp
    · exact h kept place hkept hq
  | some dir =>
    obtain ⟨found, hfound⟩ := h
    refine ⟨found, hfound.absolute.trans habsolute, hfound.within.trans hprefix, hfound.offers, ?_⟩
    intro pieces place hlong hshort hoffers
    -- A directory with a project on the longer path is one on the parent, and the last of these is
    -- known.
    rcases offers_of_parent? hparent hshort hoffers with hp | ⟨kept, heq, hkept, hq⟩
    · exact absurd hp (hnone place)
    · apply hfound.last kept place _ hkept hq
      rcases heq with rfl | rfl
      · exact hlong
      · exact hfound.within

/-- Parents have fewer pieces, so the walk ends before its steps run out. -/
theorem isNearest_nearestFrom {fuel : Nat} (hfuel : start.pieces.length < fuel)
    (hfits : (start.join projectFileName).Fits) : t.IsNearest start (t.nearestFrom fuel start) := by
  -- The induction is on the steps that are left, of which there are always more than pieces.
  induction fuel generalizing start with
  | zero => exact absurd hfuel (Nat.not_lt_zero _)
  | succ fuel ih =>
    rw [nearestFrom]
    by_cases hcontains : t.contains (start.join projectFileName) = true
    · obtain ⟨found, hoffers⟩ := (contains_join_iff hfits).1 hcontains
      rw [if_pos hcontains]
      exact ⟨found, hoffers.foremost⟩
    · have hnone : ∀ place, ¬t.Offers start projectFileName place :=
        fun place h => hcontains ((contains_join_iff hfits).2 ⟨place, h⟩)
      rw [if_neg hcontains]
      cases hparent : start.parent? with
      | none =>
        exact fun pieces place hpieces h =>
          hnone place (offers_of_parent?_eq_none hparent hpieces h)
      | some q =>
        have hshorter := Path.length_lt_of_parent? hparent
        have hfits' := hfits.join_of_prefix (Path.pieces_of_parent? hparent).1
          (Path.prefix_of_parent? hparent)
        exact (ih (by omega) hfits').of_parent? hparent hnone

/-- The search takes more steps than the path has pieces. -/
theorem isNearest_nearestProject? (hfits : (start.join projectFileName).Fits) :
    t.IsNearest start (t.nearestProject? start) :=
  isNearest_nearestFrom (by omega) hfits

/-! ## The nearest directory above a place -/

/-- Of the directories from `top` down to the place, this is the nearest to the place that has a
project file. -/
structure Closest (t : FileTree) (top place found : List String) : Prop where
  below : top <+: found
  above : found <+: place
  holds : t.root.Holds found projectFileName
  nearest : ∀ other, top <+: other → other <+: place → t.root.Holds other projectFileName →
    other <+: found

instance (t : FileTree) (top place found : List String) : Decidable (t.Closest top place found) :=
  decidable_of_iff
    ((top <+: found ∧ found <+: place ∧ t.root.Holds found projectFileName) ∧ ∀ other ∈ place.inits,
      top <+: other → t.root.Holds other projectFileName → other <+: found)
    ⟨fun ⟨⟨hbelow, habove, hholds⟩, hnearest⟩ =>
      ⟨hbelow, habove, hholds,
        fun other htop hplace => hnearest other ((List.mem_inits other place).2 hplace) htop⟩,
    fun h => ⟨⟨h.below, h.above, h.holds⟩,
      fun other hplace htop => h.nearest other htop ((List.mem_inits other place).1 hplace)⟩⟩

/-- A path that never goes up leads through all directories between where it starts and its
place. -/
theorem Leads.offers_of_prefix (h : t.Leads start place) (hup : ".." ∉ start.pieces)
    {other : List String} (hbelow : t.base start <+: other) (habove : other <+: place)
    (hholds : t.root.Holds other projectFileName) :
    ∃ pieces, pieces <+: start.pieces ∧
      other = t.base start ++ pieces.filter (fun x => !Path.isIdle x) ∧
      t.Offers ⟨start.absolute, pieces⟩ projectFileName other := by
  obtain ⟨names, rfl⟩ := hbelow
  -- A directory on the way is named by the busy pieces up to some point of the path.
  rw [Entry.eq_of_follow hup h, List.prefix_append_right_inj] at habove
  obtain ⟨pieces, hpieces, rfl⟩ := List.prefix_filter_iff.1 habove
  exact ⟨pieces, hpieces, rfl, h.take hup hpieces, hholds⟩

/-- The directory that is found is named by the busy pieces up to it, since none of them goes up. -/
theorem Foremost.place_eq (h : t.Foremost start dir found) (hup : ".." ∉ start.pieces) :
    found = t.base start ++ dir.pieces.filter fun x => !Path.isIdle x := by
  have hbase : t.base dir = t.base start := by
    unfold base
    rw [h.absolute]
  rw [← hbase]
  exact Entry.eq_of_follow (fun hmem => hup (h.within.mem hmem)) h.offers.leads

/-- It is at or below the directory where the path starts. -/
theorem Foremost.base_prefix (h : t.Foremost start dir found) (hup : ".." ∉ start.pieces) :
    t.base start <+: found := by
  rw [h.place_eq hup]
  exact List.prefix_append _ _

/-- It is at or above the place that the path leads to. -/
theorem Foremost.prefix_place (h : t.Foremost start dir found) (hup : ".." ∉ start.pieces)
    (hplace : t.Leads start place) : found <+: place := by
  rw [h.place_eq hup, Entry.eq_of_follow hup hplace, List.prefix_append_right_inj]
  exact h.within.filter _

/-- The last directory on a path that never goes up is the nearest above its place. -/
theorem Foremost.eq_of_closest {reached : List String} (hdir : t.Foremost start dir reached)
    (hup : ".." ∉ start.pieces) (hplace : t.Leads start place)
    (h : t.Closest (t.base start) place found) : found = reached := by
  obtain ⟨pieces, hpieces, hfound, hoffers⟩ := hplace.offers_of_prefix hup h.below h.above h.holds
  rcases List.prefix_or_prefix_of_prefix hdir.within hpieces with hlonger | hshorter
  · exact hdir.last pieces found hlonger hpieces hoffers
  · -- Then the directory is at or below the nearest one, which has none below it.
    have hreached := hdir.place_eq hup
    have hback : reached <+: found :=
      h.nearest reached (hdir.base_prefix hup) (hdir.prefix_place hup hplace) hdir.offers.holds
    have hforth : found <+: reached := by
      rw [hfound, hreached, List.prefix_append_right_inj]
      exact hshorter.filter _
    exact hforth.eq_of_length_le hback.length_le

end FileTree

/-! ## Gathering from a directory -/

namespace Surroundings

/-- The project file of the directory at the place is used: the path leads to the directory, and
settings are gathered as from the file itself, with the path as the root of the project. -/
structure Uses (s : Surroundings) (start dir : Path) (found : List String) : Prop where
  leads : s.files.Leads dir found
  finds : ∃ entry, s.files.root.get? (found ++ [projectFileName]) = some entry ∧
    s.files.find (dir.join projectFileName) = .ok entry
  gathers : s.gather (.directory start) =
    (s.gather (.file (dir.join projectFileName))).map fun g => { g with projectRoot := some dir }

/-- No project file is used: settings are gathered as from a project that sets nothing, and the
project has no root. -/
structure UsesNone (s : Surroundings) (start : Path) : Prop where
  gathers : s.gather (.directory start) = s.gather (.text "")
  root : ∀ g, s.gather (.directory start) = .ok g → g.projectRoot = none

/-- Where the layer of the project comes from decides, besides the layer, only the root. -/
theorem gather_eq_map (s : Surroundings) {source other : ProjectSource} {root : Option Path}
    (h : s.projectLayer source = (s.projectLayer other).map fun layer => (layer.1, root)) :
    s.gather source = (s.gather other).map fun g => { g with projectRoot := root } := by
  unfold gather
  rw [h]
  cases s.projectLayer other with
  | error e => rfl
  | ok layer =>
    cases s.userLayer with
    | error e => rfl
    | ok user =>
      cases s.environment.overrides with
      | error e => rfl
      | ok environment =>
        dsimp only [Except.map, bind, Except.bind]
        split <;> rfl

/-- If the walk ends at a directory, its project file is read as if it had been given itself. -/
theorem uses_of_foremost {s : Surroundings} {start dir : Path} {found : List String}
    (hfits : (start.join projectFileName).Fits)
    (hnearest : s.files.nearestProject? start = some dir)
    (h : s.files.Foremost start dir found) : s.Uses start dir found where
  leads := h.offers.leads
  finds := by
    obtain ⟨entry, hentry⟩ := h.offers.holds.exists_entry
    have hdir := hfits.join_of_prefix h.absolute h.within
    exact ⟨entry, hentry,
      (FileTree.find_join isEntryName_projectFileName hdir).2 ⟨found, h.offers, hentry⟩⟩
  gathers := by
    apply s.gather_eq_map
    dsimp only [projectLayer]
    rw [hnearest]
    dsimp only
    cases s.files.readSettings (dir.join projectFileName) <;> rfl

/-- If the walk ends nowhere, gathering goes on as with an empty text. -/
theorem usesNone_of_nearestProject? {s : Surroundings} {start : Path}
    (hnearest : s.files.nearestProject? start = none) : s.UsesNone start := by
  have hlayer : s.projectLayer (.directory start) = .ok (none, none) := by
    dsimp only [projectLayer]
    rw [hnearest]
  have hempty : s.projectLayer (.text "") = .ok (none, none) := rfl
  refine ⟨?_, ?_⟩
  · unfold gather
    rw [hlayer, hempty]
  · -- The layer comes without a root, so that setting the root to none changes nothing.
    have hroot : s.gather (.directory start) =
        (s.gather (.directory start)).map fun g => { g with projectRoot := none } := by
      apply s.gather_eq_map
      rw [hlayer]
      rfl
    intro g hg
    rw [hg] at hroot
    exact congrArg Gathered.projectRoot (Except.ok.inj hroot)

/-- A project is looked for along the text of the path that the search starts from.

Take any files, any working directory and any path that, with the name of a project file, is not
longer than paths can be. If some part of the path, from its start to one of its pieces, leads to a
directory with a project file, then the longest such part is the root of the project, and the file
in its directory is used. Otherwise no project is used.

If the path leads somewhere and has no piece that goes up, then what is used is the project file of
the nearest directory, from the place that it leads to upward. For an absolute path all directories
up to the root of the tree count, for another only those up to the working directory. -/
theorem gather_directory_nearest (s : Surroundings) (start : Path)
    (hfits : (start.join projectFileName).Fits) :
    ((∃ dir found, s.files.Foremost start dir found ∧ s.Uses start dir found) ∨
      (∀ pieces place, pieces <+: start.pieces →
        ¬s.files.Offers ⟨start.absolute, pieces⟩ projectFileName place) ∧ s.UsesNone start) ∧
    (".." ∉ start.pieces → ∀ place, s.files.Leads start place →
      (∀ found, s.files.Closest (s.files.base start) place found → ∃ dir, s.Uses start dir found) ∧
      ((∀ other, s.files.base start <+: other → other <+: place →
        ¬s.files.root.Holds other projectFileName) → s.UsesNone start)) := by
  have hresult := FileTree.isNearest_nearestProject? (t := s.files) hfits
  cases hnearest : s.files.nearestProject? start with
  | none =>
    rw [hnearest] at hresult
    have hnone := usesNone_of_nearestProject? hnearest
    refine ⟨.inr ⟨hresult, hnone⟩, fun hup place hplace => ⟨fun found hfound => ?_, fun _ => hnone⟩⟩
    -- A nearest directory would be on the path, where there is none with a project.
    obtain ⟨pieces, hpieces, -, hoffers⟩ :=
      hplace.offers_of_prefix hup hfound.below hfound.above hfound.holds
    exact absurd hoffers (hresult pieces found hpieces)
  | some dir =>
    rw [hnearest] at hresult
    obtain ⟨reached, hdir⟩ := hresult
    have huses := uses_of_foremost hfits hnearest hdir
    refine ⟨.inl ⟨dir, reached, hdir, huses⟩, fun hup place hplace =>
      ⟨fun found hfound => ?_, fun h => ?_⟩⟩
    · rw [hdir.eq_of_closest hup hplace hfound]
      exact ⟨dir, huses⟩
    · exact absurd hdir.offers.holds
        (h reached (hdir.base_prefix hup) (hdir.prefix_place hup hplace))

/-- A project file at the root of the tree, one in a directory below it, and none further down. -/
def nested : Surroundings where
  files.root := .directory
    [("mypl.toml", .file "[vm]\nheap_base_id = 5\n".toUTF8.data.toList),
      ("a", .directory
        [("mypl.toml", .file "[vm]\nheap_base_id = 7\n".toUTF8.data.toList),
          ("b", .directory [("c", .directory [])])])]

/-- From two directories further down, the file of the nearer directory is used, also where the path
has idle pieces. -/
theorem gather_directory_nearest_nested :
    (Path.join ⟨true, ["a", "b", ".", "c", ""]⟩ projectFileName).Fits ∧
    nested.files.Leads ⟨true, ["a", "b", ".", "c", ""]⟩ ["a", "b", "c"] ∧
    nested.files.Closest [] ["a", "b", "c"] ["a"] ∧
    (∃ dir, nested.Uses ⟨true, ["a", "b", ".", "c", ""]⟩ dir ["a"]) ∧
    nested.gather (.directory ⟨true, ["a", "b", ".", "c", ""]⟩) =
      .ok ⟨⟨"main", 7, none, false⟩, some ⟨true, ["a"]⟩⟩ := by
  have hfits : (Path.join ⟨true, ["a", "b", ".", "c", ""]⟩ projectFileName).Fits :=
    ⟨by decide +kernel, by decide +kernel⟩
  have hleads : nested.files.Leads ⟨true, ["a", "b", ".", "c", ""]⟩ ["a", "b", "c"] := rfl
  have hclosest : nested.files.Closest [] ["a", "b", "c"] ["a"] := by decide
  refine ⟨hfits, hleads, hclosest, ?_, by decide +kernel⟩
  exact ((gather_directory_nearest nested _ hfits).2 (by decide) _ hleads).1 ["a"] hclosest

/-- A project file above the working directory. -/
def aside : Surroundings where
  files.root := .directory
    [("a", .directory
      [("mypl.toml", .file "[vm]\nheap_base_id = 7\n".toUTF8.data.toList), ("b", .directory [])])]
  files.workingDirectory := ["a", "b"]

/-- The text of a path is not enough to go by. A path that goes up leads to the root of the tree,
where there is no project, and the file of the directory that it has left is used; and from the
working directory the project file right above it is not seen. -/
theorem gather_directory_astray :
    (aside.files.Leads ⟨true, ["a", ".."]⟩ [] ∧ ¬aside.files.root.Holds [] projectFileName ∧
      aside.gather (.directory ⟨true, ["a", ".."]⟩) =
        .ok ⟨⟨"main", 7, none, false⟩, some ⟨true, ["a"]⟩⟩) ∧
    aside.files.Leads ⟨false, ["."]⟩ ["a", "b"] ∧ aside.files.Closest [] ["a", "b"] ["a"] ∧
      aside.gather (.directory ⟨false, ["."]⟩) = .ok ⟨⟨"main", 1111, none, false⟩, none⟩ :=
  ⟨⟨rfl, by decide, by decide +kernel⟩, rfl, by decide, by decide +kernel⟩

end Surroundings

end RecordMachine
