import Mathlib.Data.List.Infix
import Mathlib.Data.List.TakeWhile
import XQuerySyntax.Proofs.Library.Resolution

/-! Resolved locations are canonical. Behind the authority of the module that gives the hint stands a path
of ordinary segments, and what a hint may contain between two segments without leading anywhere else leaves
no trace in it: a file has one location however a relative hint to it is written. -/

namespace XQuerySyntax

namespace Path

/-! ### Normal paths -/

/-- A segment that names something below. -/
structure IsOrdinary (s : List Char) : Prop where
  ne_nil : s ≠ []
  ne_dot : s ≠ ['.']
  ne_dots : s ≠ ['.', '.']
  noSlash : '/' ∉ s

theorem isSegment_iff {s : List Char} : IsSegment s ↔ (s ≠ [] ∧ s ≠ ['.']) ∧ '/' ∉ s := by
  rw [IsSegment, isSignificant, decide_eq_true_iff]

theorem IsOrdinary.isSegment {s : List Char} (h : IsOrdinary s) : IsSegment s :=
  isSegment_iff.2 ⟨⟨h.ne_nil, h.ne_dot⟩, h.noSlash⟩

theorem isSegment_dots : IsSegment ['.', '.'] := ⟨by decide, by decide⟩

/-- The text is ordinary segments with slashes between them, and perhaps a slash in front. -/
def IsCanonical (path : List Char) : Prop :=
  ∃ (isAbsolute : Bool) (segments : List (List Char)), (∀ s ∈ segments, IsOrdinary s) ∧
    path = (if isAbsolute then ['/'] else []) ++ List.intercalate ['/'] segments

theorem isOrdinary_of_mem_normalize {p : Path} (h : ∀ s ∈ p.segments, IsSegment s) {s : List Char}
    (hs : s ∈ p.normalize.segments) : IsOrdinary s := by
  rcases mem_walk (List.mem_reverse.1 hs) with hplace | ⟨hmem, hdots⟩
  · exact absurd hplace List.not_mem_nil
  · obtain ⟨⟨hnil, hdot⟩, hslash⟩ := isSegment_iff.1 (h s hmem)
    exact ⟨hnil, hdot, hdots, hslash⟩

/-- A path of ordinary segments is normal. -/
theorem normalize_of_isOrdinary {p : Path} (h : ∀ s ∈ p.segments, IsOrdinary s) : p.normalize = p := by
  have hwalk := walk_of_names (fun hm => (h _ hm).ne_dots rfl) []
  rw [normalize, hwalk, List.append_nil, List.reverse_reverse]

theorem head?_toChars {p : Path} (h : ∀ s ∈ p.segments, IsOrdinary s) :
    p.toChars.head? = some '/' ↔ p.isAbsolute = true := by
  have hread : ofChars p.toChars = p := ofChars_toChars fun s hs => (h s hs).isSegment
  have habsolute : (ofChars p.toChars).isAbsolute = decide (p.toChars.head? = some '/') := rfl
  rw [hread] at habsolute
  rw [habsolute, decide_eq_true_iff]

/-! ### Detours -/

/-- What may stand between two segments without leading anywhere else. -/
inductive IsDetour : List Char → Prop where
  | slash : IsDetour ['/']
  | dot : IsDetour ['.', '/']
  /-- Into a directory and out of it again. -/
  | aside {s : List Char} (h : IsOrdinary s) : IsDetour (s ++ ['/', '.', '.', '/'])

theorem segments_append_slash (a b : List Char) :
    (ofChars (a ++ '/' :: b)).segments = (ofChars a).segments ++ (ofChars b).segments := by
  simp only [ofChars, split_append_slash, List.filter_append]

theorem segments_of_isSegment {s : List Char} (h : IsSegment s) : (ofChars s).segments = [s] := by
  simp only [ofChars, split_of_slash_not_mem h.2]
  exact List.filter_cons_of_pos h.1

theorem IsDetour.walk_eq {detour : List Char} (h : IsDetour detour) (place : List (List Char))
    (behind : List Char) :
    walk place (ofChars (detour ++ behind)).segments = walk place (ofChars behind).segments := by
  cases h with
  | slash => exact congrArg (walk place) (segments_append_slash [] behind)
  | dot => exact congrArg (walk place) (segments_append_slash ['.'] behind)
  | @aside s hs =>
    have hdown : (s ++ ['/', '.', '.', '/']) ++ behind = s ++ '/' :: (['.', '.'] ++ '/' :: behind) := by simp
    rw [hdown, segments_append_slash, segments_append_slash, segments_of_isSegment hs.isSegment,
      segments_of_isSegment isSegment_dots, List.singleton_append, List.singleton_append, walk,
      if_neg hs.ne_dots, walk, if_pos rfl, List.tail_cons]

theorem IsDetour.normalize_eq {detour : List Char} (h : IsDetour detour) (p : Path)
    (before behind : List Char) :
    (p.append (ofChars (before ++ '/' :: (detour ++ behind)))).normalize =
      (p.append (ofChars (before ++ '/' :: behind))).normalize := by
  have habsolute : (ofChars (before ++ '/' :: (detour ++ behind))).isAbsolute =
      (ofChars (before ++ '/' :: behind)).isAbsolute := by
    cases before <;> rfl
  have hwalk (place : List (List Char)) : walk place (ofChars (before ++ '/' :: (detour ++ behind))).segments =
      walk place (ofChars (before ++ '/' :: behind)).segments := by
    rw [segments_append_slash, segments_append_slash, walk_append, walk_append, h.walk_eq]
  rw [append, append, habsolute]
  split
  · rw [normalize, normalize, hwalk, habsolute]
  · simp only [normalize, walk_append, hwalk]

end Path

namespace ModuleLocation

/-! ### Scheme and authority -/

theorem hasScheme_iff {text : List Char} : hasScheme text = true ↔ schemeMark <:+: text := by
  induction text with
  | nil => decide
  | cons c cs ih => rw [hasScheme, Bool.or_eq_true, List.isPrefixOf_iff_prefix, ih, List.infix_cons_iff]

theorem hasScheme_eq_false {text : List Char} (h : ¬ schemeMark <:+: text) : hasScheme text = false :=
  Bool.eq_false_iff.2 (mt hasScheme_iff.1 h)

/-- The location is an authority and a path. A location without a scheme is all path; any other has its
first scheme mark, and behind it all up to the next slash, in the authority. -/
def SplitsInto (location authority path : List Char) : Prop :=
  location = authority ++ path ∧
    (¬ schemeMark <:+: location ∧ authority = [] ∨
      ∃ scheme host, ¬ schemeMark <:+: scheme ∧ '/' ∉ host ∧ authority = scheme ++ schemeMark ++ host ∧
        (path = [] ∨ path.head? = some '/'))

theorem dropWhile_slash (text : List Char) :
    text.dropWhile (· ≠ '/') = [] ∨ (text.dropWhile (· ≠ '/')).head? = some '/' := by
  have hhead := List.head?_dropWhile_not (· ≠ '/') text
  cases hdrop : text.dropWhile (· ≠ '/') with
  | nil => exact .inl rfl
  | cons c cs =>
    rw [hdrop] at hhead
    exact .inr (by simpa using hhead)

theorem splitsInto_go {location : List Char} (h : schemeMark <:+: location) :
    SplitsInto location (splitAuthority.go location).1 (splitAuthority.go location).2 := by
  induction location with
  | nil => exact absurd h (by decide)
  | cons c cs ih =>
    by_cases hmark : schemeMark.isPrefixOf (c :: cs) = true
    · obtain ⟨rest, hrest⟩ := List.isPrefixOf_iff_prefix.1 hmark
      rw [splitAuthority.go, if_pos hmark, ← hrest, List.drop_left]
      refine ⟨by simp [List.takeWhile_append_dropWhile], .inr ⟨[], _, by decide, ?_, rfl, ?_⟩⟩
      · intro hslash
        have hne := List.mem_takeWhile_imp hslash
        simp at hne
      · exact dropWhile_slash rest
    · have hcs : schemeMark <:+: cs :=
        (List.infix_cons_iff.1 h).resolve_left fun hp => hmark (List.isPrefixOf_iff_prefix.2 hp)
      rw [splitAuthority.go, if_neg hmark]
      obtain ⟨heq, ⟨hnone, -⟩ | ⟨scheme, host, hscheme, hhost, hauthority, hpath⟩⟩ := ih hcs
      · exact absurd hcs hnone
      · refine ⟨congrArg (c :: ·) heq, .inr ⟨c :: scheme, host, ?_, hhost, ?_, hpath⟩⟩
        · intro hmore
          rcases List.infix_cons_iff.1 hmore with hp | hi
          · refine hmark (List.isPrefixOf_iff_prefix.2 (hp.trans ?_))
            rw [heq, hauthority]
            exact ⟨schemeMark ++ host ++ (splitAuthority.go cs).2, by simp⟩
          · exact hscheme hi
        · rw [hauthority]
          rfl

theorem splitsInto_splitAuthority (location : List Char) :
    SplitsInto location (splitAuthority location).1 (splitAuthority location).2 := by
  rw [splitAuthority]
  by_cases h : schemeMark <:+: location
  · rw [if_pos (hasScheme_iff.2 h)]
    exact splitsInto_go h
  · rw [hasScheme_eq_false h, if_neg Bool.false_ne_true]
    exact ⟨rfl, .inl ⟨h, rfl⟩⟩

/-! ### Resolved locations -/

/-- The path that a hint leads to from the path of a module. -/
def targetPath (hint place : List Char) : Path := ((Path.ofChars place).parent.append (.ofChars hint)).normalize

theorem isOrdinary_of_mem_targetPath {hint place s : List Char} (h : s ∈ (targetPath hint place).segments) :
    Path.IsOrdinary s := by
  refine Path.isOrdinary_of_mem_normalize (fun x hx => ?_) h
  have hparent : ∀ y ∈ (Path.ofChars place).parent.segments, Path.IsSegment y := by
    intro y hy
    rw [Path.parent] at hy
    split at hy
    · exact absurd hy List.not_mem_nil
    · exact Path.isSegment_of_mem_ofChars (List.dropLast_subset _ hy)
  rw [Path.append] at hx
  split at hx
  · exact Path.isSegment_of_mem_ofChars hx
  · exact (List.mem_append.1 hx).elim (hparent x) fun hx => Path.isSegment_of_mem_ofChars hx

/-- Where a hint leads to is known from the top if the hint is, or the path of a module that names
something. -/
theorem isAbsolute_targetPath (hint place : List Char) : (targetPath hint place).isAbsolute = true ↔
    hint.head? = some '/' ∨ place.head? = some '/' ∧ ∃ s ∈ Path.split place, s ≠ [] ∧ s ≠ ['.'] := by
  have hnames : (Path.ofChars place).segments = [] ↔ ¬ ∃ s ∈ Path.split place, s ≠ [] ∧ s ≠ ['.'] := by
    simp [Path.ofChars, Path.isSignificant, List.filter_eq_nil_iff]
  have habsolute (text : List Char) : (Path.ofChars text).isAbsolute = true ↔ text.head? = some '/' :=
    decide_eq_true_iff
  rw [targetPath, Path.normalize, Path.append, ← habsolute hint]
  by_cases hhint : (Path.ofChars hint).isAbsolute = true
  · simp [hhint]
  · rw [if_neg hhint, Path.parent]
    by_cases hplace : (Path.ofChars place).segments = []
    · simp [hplace, hhint, hnames.1 hplace]
    · simp [hplace, hhint, habsolute, not_not.1 (mt hnames.2 hplace)]

/-- The path behind the authority: one that is not known from the top gets a slash in front if there is an
authority. -/
def resolvedPath (hint base : List Char) : Path where
  isAbsolute := (targetPath hint (splitAuthority base).2).isAbsolute || !(splitAuthority base).1.isEmpty
  segments := (targetPath hint (splitAuthority base).2).segments

theorem resolveChars_eq {hint base : List Char} (h : hasScheme hint = false) :
    resolveChars hint base = (splitAuthority base).1 ++ (resolvedPath hint base).toChars := by
  rw [resolveChars, resolvedPath, h, if_neg Bool.false_ne_true]
  rcases splitAuthority base with ⟨authority, place⟩
  change (if authority = [] ∨ (targetPath hint place).isAbsolute = true then
    authority ++ (targetPath hint place).toChars else authority ++ '/' :: (targetPath hint place).toChars) = _
  dsimp only
  rcases targetPath hint place with ⟨isAbsolute, segments⟩
  cases isAbsolute <;> cases authority <;> rfl

theorem isAbsolute_resolvedPath (hint base : List Char) : (resolvedPath hint base).isAbsolute = true ↔
    (splitAuthority base).1 ≠ [] ∨ hint.head? = some '/' ∨
      (splitAuthority base).2.head? = some '/' ∧ ∃ s ∈ Path.split (splitAuthority base).2, s ≠ [] ∧ s ≠ ['.'] := by
  rw [resolvedPath, Bool.or_eq_true, isAbsolute_targetPath, or_comm, Bool.not_eq_true',
    List.isEmpty_eq_false_iff]

/-- A hint without a scheme leads to the authority of the base and a path of ordinary segments, which begins
with a slash exactly if there is an authority, the hint is absolute, or the base path is and names
something; the path is normal, and detours in the hint do not change it. -/
theorem resolved_locations_are_canonical {hint : String} (base : Option String)
    (h : ¬ schemeMark <:+: hint.toList) :
    (∃ authority place path, SplitsInto (base.getD "").toList authority place ∧
      resolve hint base = String.ofList (authority ++ path) ∧
      Path.IsCanonical path ∧
      (path.head? = some '/' ↔ authority ≠ [] ∨ hint.toList.head? = some '/' ∨
        place.head? = some '/' ∧ ∃ s ∈ Path.split place, s ≠ [] ∧ s ≠ ['.']) ∧
      (Path.ofChars path).normalize.toChars = path) ∧
    ∀ before detour behind : List Char, hint.toList = before ++ '/' :: behind → Path.IsDetour detour →
      ¬ schemeMark <:+: before ++ '/' :: (detour ++ behind) →
      resolve (String.ofList (before ++ '/' :: (detour ++ behind))) base = resolve hint base := by
  constructor
  · have hordinary : ∀ s ∈ (resolvedPath hint.toList (base.getD "").toList).segments, Path.IsOrdinary s :=
      fun _ => isOrdinary_of_mem_targetPath
    refine ⟨_, _, _, splitsInto_splitAuthority _,
      congrArg String.ofList (resolveChars_eq (hasScheme_eq_false h)), ⟨_, _, hordinary, rfl⟩, ?_, ?_⟩
    · rw [Path.head?_toChars hordinary, isAbsolute_resolvedPath]
    · rw [Path.ofChars_toChars fun s hs => (hordinary s hs).isSegment, Path.normalize_of_isOrdinary hordinary]
  · intro before detour behind hhint hdetour hmark
    have hsame := hdetour.normalize_eq (Path.ofChars (splitAuthority (base.getD "").toList).2).parent before behind
    rw [resolve, resolve, String.toList_ofList, resolveChars_eq (hasScheme_eq_false hmark),
      resolveChars_eq (hasScheme_eq_false h), hhint, resolvedPath, resolvedPath, targetPath, targetPath, hsame]

/-- A hint below an authority, with a way into a directory and out again. -/
theorem detour_below_authority_is_left_out :
    ¬ schemeMark <:+: "lib/../b/u.xq".toList ∧
      resolve "lib/../b/u.xq" (some "http://example.com/q/m.xq") = "http://example.com/q/b/u.xq" ∧
      resolve "lib/../x/../b/u.xq" (some "http://example.com/q/m.xq") =
        resolve "lib/../b/u.xq" (some "http://example.com/q/m.xq") := by
  have h : ¬ schemeMark <:+: "lib/../b/u.xq".toList := mt hasScheme_iff.2 (by decide)
  have haside : Path.IsDetour ("x".toList ++ "/../".toList) :=
    .aside ⟨by decide, by decide, by decide, by decide⟩
  have hsame := (resolved_locations_are_canonical (some "http://example.com/q/m.xq") h).2 "lib/..".toList _
    "b/u.xq".toList (by decide) haside (mt hasScheme_iff.2 (by decide))
  have hhint : String.ofList ("lib/..".toList ++ '/' :: ("x".toList ++ "/../".toList ++ "b/u.xq".toList)) =
      "lib/../x/../b/u.xq" := by decide
  rw [hhint] at hsame
  exact ⟨h, by rfl, hsame⟩

end ModuleLocation

end XQuerySyntax
