import XQuerySyntax.Library.Path

/-! Where relative hints lead. A location known from some directory and the same location known from the
top of the file system give a hint the same meaning, unless the hint climbs above the directory: there
the walk over a relative path stays where it is, and the walk over an absolute one goes on upwards. -/

namespace XQuerySyntax

namespace Path

/-! ### Pieces between slashes -/

theorem split_append_slash (a b : List Char) : split (a ++ '/' :: b) = split a ++ split b := by
  induction a with
  | nil =>
    obtain ⟨piece, pieces, hb⟩ := List.exists_cons_of_ne_nil (split_ne_nil b)
    simp [split, hb]
  | cons c a ih =>
    obtain ⟨piece, pieces, ha⟩ := List.exists_cons_of_ne_nil (split_ne_nil a)
    rw [List.cons_append, split, split, ih, ha]
    by_cases hc : c = '/' <;> simp [hc]

theorem split_of_slash_not_mem {text : List Char} (h : '/' ∉ text) : split text = [text] := by
  induction text with
  | nil => rfl
  | cons c cs ih =>
    obtain ⟨hc, hcs⟩ := not_or.1 (mt List.mem_cons.2 h)
    rw [split, ih hcs]
    exact if_neg fun e => hc e.symm

theorem split_intercalate {pieces : List (List Char)} (hne : pieces ≠ [])
    (h : ∀ piece ∈ pieces, '/' ∉ piece) : split (List.intercalate ['/'] pieces) = pieces := by
  induction pieces with
  | nil => exact absurd rfl hne
  | cons piece pieces ih =>
    obtain ⟨hpiece, hpieces⟩ := List.forall_mem_cons.1 h
    cases pieces with
    | nil => simpa using split_of_slash_not_mem hpiece
    | cons next rest =>
      have hjoin : List.intercalate ['/'] (piece :: next :: rest) =
          piece ++ '/' :: List.intercalate ['/'] (next :: rest) := by simp [List.intercalate]
      rw [hjoin, split_append_slash, split_of_slash_not_mem hpiece, ih (List.cons_ne_nil _ _) hpieces,
        List.singleton_append]

/-! ### Reading and writing -/

/-- A segment as reading makes them: more than nothing or a dot, and without slashes. -/
def IsSegment (s : List Char) : Prop := isSignificant s = true ∧ '/' ∉ s

theorem isSegment_of_mem_ofChars {text s : List Char} (h : s ∈ (ofChars text).segments) : IsSegment s := by
  obtain ⟨hmem, hs⟩ := List.mem_filter.1 h
  exact ⟨hs, slash_not_mem_of_mem_split hmem⟩

theorem filter_of_isSegment {segments : List (List Char)} (h : ∀ s ∈ segments, IsSegment s) :
    segments.filter isSignificant = segments := List.filter_eq_self.2 fun s hs => (h s hs).1

/-- What is written is read again. -/
theorem ofChars_toChars {p : Path} (h : ∀ s ∈ p.segments, IsSegment s) : ofChars p.toChars = p := by
  obtain ⟨isAbsolute, segments⟩ := p
  cases segments with
  | nil => cases isAbsolute <;> rfl
  | cons s rest =>
    have hsplit := split_intercalate (List.cons_ne_nil s rest) fun x hx => (h x hx).2
    have hfilter := filter_of_isSegment h
    cases isAbsolute with
    | true =>
      have hslash := split_append_slash [] (List.intercalate ['/'] (s :: rest))
      rw [List.nil_append, hsplit] at hslash
      simp only [toChars, ofChars, if_true, List.singleton_append, hslash, List.head?_cons]
      simpa [split, isSignificant] using hfilter
    | false =>
      obtain ⟨hs, hslash⟩ := h s List.mem_cons_self
      obtain ⟨c, cs, rfl⟩ : ∃ c cs, s = c :: cs := by
        refine List.exists_cons_of_ne_nil ?_
        rintro rfl
        cases hs
      have hhead : (List.intercalate ['/'] ((c :: cs) :: rest)).head? = some c := by
        cases rest <;> simp [List.intercalate]
      have hc : c ≠ '/' := fun e => hslash (e ▸ List.mem_cons_self)
      simp only [toChars, ofChars, Bool.false_eq_true, if_false, List.nil_append, hsplit, hhead, hfilter,
        Option.some.injEq, hc, decide_false]

/-- Texts joined by a slash have the segments of both. -/
theorem ofChars_append_slash {a : List Char} (h : a.head? = some '/') (b : List Char) :
    ofChars (a ++ '/' :: b) = ⟨true, (ofChars a).segments ++ (ofChars b).segments⟩ := by
  obtain ⟨cs, rfl⟩ := List.head?_eq_some_iff.1 h
  have hsplit := split_append_slash ('/' :: cs) b
  simp only [ofChars, hsplit, List.filter_append]
  simp

/-! ### Walking -/

theorem walk_append (place a b : List (List Char)) : walk place (a ++ b) = walk (walk place a) b := by
  induction a generalizing place with
  | nil => rfl
  | cons piece pieces ih => exact ih _

/-- Without double dots a walk only leads down. -/
theorem walk_of_names {segments : List (List Char)} (h : ['.', '.'] ∉ segments) (place : List (List Char)) :
    walk place segments = segments.reverse ++ place := by
  induction segments generalizing place with
  | nil => rfl
  | cons piece pieces ih =>
    obtain ⟨hpiece, hpieces⟩ := not_or.1 (mt List.mem_cons.2 h)
    rw [walk, if_neg fun e => hpiece e.symm, ih hpieces, List.reverse_cons, List.append_assoc,
      List.singleton_append]

/-- What a walk ends with it began with or passed, and no double dot is left. -/
theorem mem_walk {s : List Char} {place segments : List (List Char)} (h : s ∈ walk place segments) :
    s ∈ place ∨ s ∈ segments ∧ s ≠ ['.', '.'] := by
  induction segments generalizing place with
  | nil => exact .inl h
  | cons piece pieces ih =>
    rcases ih h with h | ⟨h, hs⟩
    · split at h
      · exact .inl (List.mem_of_mem_tail h)
      · rename_i hpiece
        rcases List.mem_cons.1 h with rfl | h
        · exact .inr ⟨List.mem_cons_self, hpiece⟩
        · exact .inl h
    · exact .inr ⟨List.mem_cons_of_mem _ h, hs⟩

/-- The number of steps that a walk leads above the place where it began, given how many segments it
stands below that place. -/
def climb : Nat → List (List Char) → Nat
  | _, [] => 0
  | depth, piece :: pieces =>
    if piece = ['.', '.'] then
      if depth = 0 then climb 0 pieces + 1 else climb (depth - 1) pieces
    else climb (depth + 1) pieces

/-- A walk takes away as many segments of the outer place as it climbs above the inner one. -/
theorem walk_append_outer (place outer segments : List (List Char)) :
    walk (place ++ outer) segments = walk place segments ++ outer.drop (climb place.length segments) := by
  induction segments generalizing place outer with
  | nil => simp [walk, climb]
  | cons piece pieces ih =>
    rw [walk, walk, climb]
    by_cases hp : piece = ['.', '.']
    · rw [if_pos hp, if_pos hp, if_pos hp]
      cases place with
      | nil =>
        have h := ih [] outer.tail
        rw [List.nil_append, List.drop_tail] at h
        exact h
      | cons s place => exact ih place outer
    · rw [if_neg hp, if_neg hp, if_neg hp]
      exact ih (piece :: place) outer

/-- The walk over segments placed below some other ones goes wrong exactly if it climbs above the place
and there is something above. -/
theorem walk_below_iff (outer segments : List (List Char)) :
    walk [] (outer ++ (walk [] segments).reverse) = walk [] (outer ++ segments) ↔
      climb 0 segments = 0 ∨ walk [] outer = [] := by
  have hdots : ['.', '.'] ∉ (walk [] segments).reverse := by
    intro h
    rcases mem_walk (List.mem_reverse.1 h) with h | h
    · exact List.not_mem_nil h
    · exact h.2 rfl
  have houter := walk_append_outer [] (walk [] outer) segments
  rw [List.nil_append, List.length_nil] at houter
  rw [walk_append, walk_append, walk_of_names hdots, List.reverse_reverse, houter, List.append_cancel_left_eq]
  constructor
  · intro h
    have hlength := congrArg List.length h
    rw [List.length_drop] at hlength
    rw [← List.length_eq_zero_iff]
    omega
  · rintro (h | h) <;> simp [h]

theorem isSegment_of_mem_normalize {p : Path} (h : ∀ s ∈ p.segments, IsSegment s) :
    ∀ s ∈ p.normalize.segments, IsSegment s := by
  intro s hs
  rcases mem_walk (List.mem_reverse.1 hs) with h' | h'
  · exact absurd h' List.not_mem_nil
  · exact h s h'.1

end Path

namespace ModuleLocation

/-- Without a scheme a location is resolved as a path. -/
theorem resolveChars_path {hint base : List Char} (hh : hasScheme hint = false) (hb : hasScheme base = false) :
    resolveChars hint base = ((Path.ofChars base).parent.append (.ofChars hint)).normalize.toChars := by
  simp [resolveChars, splitAuthority, hh, hb]

/-- A location that is a path as seen from some directory. -/
structure IsRelative (location : String) : Prop where
  noScheme : hasScheme location.toList = false
  noSlash : location.toList.head? ≠ some '/'

/-- The normal path of a location below a directory. -/
def below (root location : String) : String :=
  String.ofList (Path.ofChars (root.toList ++ '/' :: location.toList)).normalize.toChars

/-- The segments that a relative hint leads through, from the directory that the location of the module
is seen from. -/
def trail (hint base : String) : List (List Char) :=
  (Path.ofChars base.toList).segments.dropLast ++ (Path.ofChars hint.toList).segments

theorem isSegment_of_mem_trail {hint base : String} {s : List Char} (h : s ∈ trail hint base) :
    Path.IsSegment s := by
  rcases List.mem_append.1 h with h | h
  · exact Path.isSegment_of_mem_ofChars (List.dropLast_subset _ h)
  · exact Path.isSegment_of_mem_ofChars h

theorem isAbsolute_of_isRelative {location : String} (h : IsRelative location) :
    (Path.ofChars location.toList).isAbsolute = false := decide_eq_false h.noSlash

theorem resolve_relative {hint base : String} (hh : IsRelative hint) (hb : IsRelative base)
    (hname : (Path.ofChars base.toList).segments ≠ []) :
    resolve hint (some base) = String.ofList (Path.normalize ⟨false, trail hint base⟩).toChars := by
  rw [resolve, Option.getD_some, resolveChars_path hh.noScheme hb.noScheme, Path.parent, if_neg hname,
    Path.append, if_neg (by rw [isAbsolute_of_isRelative hh]; exact Bool.false_ne_true),
    isAbsolute_of_isRelative hb]
  rfl

theorem resolve_absolute {root hint base : String} (hr : root.toList.head? = some '/')
    (hs : hasScheme (root ++ "/" ++ base).toList = false) (hh : IsRelative hint)
    (hname : (Path.ofChars base.toList).segments ≠ []) :
    resolve hint (some (root ++ "/" ++ base)) =
      String.ofList (Path.normalize ⟨true, (Path.ofChars root.toList).segments ++ trail hint base⟩).toChars := by
  have htext : (root ++ "/" ++ base).toList = root.toList ++ '/' :: base.toList := by simp
  rw [resolve, Option.getD_some, resolveChars_path hh.noScheme hs, htext, Path.ofChars_append_slash hr,
    Path.parent, if_neg fun h => hname (List.append_eq_nil_iff.1 h).2, Path.append,
    if_neg (by rw [isAbsolute_of_isRelative hh]; exact Bool.false_ne_true),
    List.dropLast_append_of_ne_nil hname, List.append_assoc]
  rfl

/-- A relative hint of a module below a directory leads to the same place by the location of the module
below the directory and by its absolute location, exactly if the hint does not climb above the
directory or there is nothing above it. -/
theorem relative_hint_agrees_below_root {root base hint : String} (hr : root.toList.head? = some '/')
    (hs : hasScheme (root ++ "/" ++ base).toList = false) (hb : IsRelative base)
    (hname : (Path.ofChars base.toList).segments ≠ []) (hh : IsRelative hint) :
    below root (resolve hint (some base)) = resolve hint (some (root ++ "/" ++ base)) ↔
      Path.climb 0 (trail hint base) = 0 ∨ (Path.ofChars root.toList).normalize.segments = [] := by
  have htrail : ∀ s ∈ (Path.normalize ⟨false, trail hint base⟩).segments, Path.IsSegment s :=
    Path.isSegment_of_mem_normalize fun s hs => isSegment_of_mem_trail hs
  have hroot : ∀ s ∈ (Path.ofChars root.toList).segments, Path.IsSegment s :=
    fun s hs => Path.isSegment_of_mem_ofChars hs
  rw [resolve_relative hh hb hname, resolve_absolute hr hs hh hname, below, String.toList_ofList,
    Path.ofChars_append_slash hr, Path.ofChars_toChars htrail, String.ofList_inj]
  have hbelow : ∀ s ∈ (Path.normalize ⟨true, (Path.ofChars root.toList).segments ++
      (Path.normalize ⟨false, trail hint base⟩).segments⟩).segments, Path.IsSegment s :=
    Path.isSegment_of_mem_normalize fun s hs => (List.mem_append.1 hs).elim (hroot s) (htrail s)
  have habove : ∀ s ∈ (Path.normalize ⟨true, (Path.ofChars root.toList).segments ++
      trail hint base⟩).segments, Path.IsSegment s :=
    Path.isSegment_of_mem_normalize fun s hs => (List.mem_append.1 hs).elim (hroot s) isSegment_of_mem_trail
  -- Normal paths are the same if their texts are.
  have htexts {p q : Path} (hp : ∀ s ∈ p.segments, Path.IsSegment s) (hq : ∀ s ∈ q.segments, Path.IsSegment s) :
      p.toChars = q.toChars ↔ p = q :=
    ⟨fun h => by rw [← Path.ofChars_toChars hp, h, Path.ofChars_toChars hq], congrArg _⟩
  have hwalk := Path.walk_below_iff (Path.ofChars root.toList).segments (trail hint base)
  rw [htexts hbelow habove]
  simpa only [Path.normalize, Path.mk.injEq, List.reverse_inj, true_and, List.reverse_eq_nil_iff] using hwalk

/-- Up to the directory of the files a hint may climb. -/
theorem sibling_directory_agrees_below_root :
    below "/srv/q" (resolve "../b/u.xq" (some "a/m.xq")) = resolve "../b/u.xq" (some ("/srv/q" ++ "/" ++ "a/m.xq")) ∧
      resolve "../b/u.xq" (some ("/srv/q" ++ "/" ++ "a/m.xq")) = "/srv/q/b/u.xq" :=
  ⟨(relative_hint_agrees_below_root (by decide) (by decide) ⟨by decide, by decide⟩
    (by decide) ⟨by decide, by decide⟩).2 (.inl (by decide)), by decide⟩

/-- Above it a hint leads to different places. -/
theorem hint_above_directory_disagrees :
    below "/srv" (resolve "../u.xq" (some "m.xq")) = "/srv/u.xq" ∧
      resolve "../u.xq" (some ("/srv" ++ "/" ++ "m.xq")) = "/u.xq" ∧
      below "/srv" (resolve "../u.xq" (some "m.xq")) ≠ resolve "../u.xq" (some ("/srv" ++ "/" ++ "m.xq")) := by
  decide

end ModuleLocation

end XQuerySyntax
