/-!
Paths and how a relative one is resolved. A path is a list of segments with slashes between them; a
normal path has no empty segment, no dot and no double dot. The location of a module is a path,
possibly behind the scheme and the authority of a URI.
-/

namespace XQuerySyntax

/-- A path. Empty segments and single dots mean nothing and are left out. -/
structure Path where
  isAbsolute : Bool
  segments : List (List Char)
  deriving DecidableEq, Repr, Inhabited

namespace Path

/-- The pieces between the slashes of a text. -/
def split : List Char → List (List Char)
  | [] => [[]]
  | c :: cs =>
    match split cs with
    | [] => [[c]]
    | piece :: pieces => if c = '/' then [] :: piece :: pieces else (c :: piece) :: pieces

theorem split_ne_nil (text : List Char) : split text ≠ [] := by
  cases text with
  | nil => simp [split]
  | cons c cs =>
    rw [split]
    split
    · simp
    · split <;> simp

/-- The pieces with slashes between them are the text again. -/
theorem intercalate_split (text : List Char) : List.intercalate ['/'] (split text) = text := by
  induction text with
  | nil => rfl
  | cons c cs ih =>
    rw [split]
    split
    · rename_i h
      exact absurd h (split_ne_nil cs)
    · rename_i piece pieces h
      rw [h] at ih
      split
      · rename_i hc
        rw [hc, ← ih]
        rfl
      · rw [← ih]
        cases pieces <;> rfl

theorem slash_not_mem_of_mem_split {text piece : List Char} (h : piece ∈ split text) :
    '/' ∉ piece := by
  induction text generalizing piece with
  | nil =>
    rw [split, List.mem_singleton] at h
    simp [h]
  | cons c cs ih =>
    rw [split] at h
    split at h
    · rename_i hs
      exact absurd hs (split_ne_nil cs)
    · rename_i head tail hs
      rw [hs] at ih
      split at h
      · rcases List.mem_cons.1 h with rfl | h
        · simp
        · exact ih h
      · rename_i hc
        rcases List.mem_cons.1 h with rfl | h
        · intro hm
          rcases List.mem_cons.1 hm with hm | hm
          · exact hc hm.symm
          · exact ih List.mem_cons_self hm
        · exact ih (List.mem_cons_of_mem _ h)

/-- Pieces that are more than nothing or a single dot. -/
def isSignificant (piece : List Char) : Bool := piece ≠ [] ∧ piece ≠ ['.']

/-- Reads a path. -/
def ofChars (text : List Char) : Path :=
  ⟨text.head? = some '/', (split text).filter isSignificant⟩

/-- Writes a path. -/
def toChars (p : Path) : List Char :=
  (if p.isAbsolute then ['/'] else []) ++ List.intercalate ['/'] p.segments

/-- Walks down the segments from a place given innermost first. A double dot leads up, and nowhere
from the top. -/
def walk (place : List (List Char)) : List (List Char) → List (List Char)
  | [] => place
  | piece :: pieces => walk (if piece = ['.', '.'] then place.tail else piece :: place) pieces

/-- The path without double dots. -/
def normalize (p : Path) : Path := { p with segments := (walk [] p.segments).reverse }

/-- The path without its last segment. A path without segments has no parent; what is relative to
it is relative to nothing. -/
def parent (p : Path) : Path :=
  if p.segments = [] then ⟨false, []⟩ else { p with segments := p.segments.dropLast }

/-- A path seen from another one. -/
def append (p q : Path) : Path :=
  if q.isAbsolute then q else { p with segments := p.segments ++ q.segments }

end Path

/-! ### Locations of modules -/

namespace ModuleLocation

/-- What stands between scheme and authority. -/
def schemeMark : List Char := "://".toList

/-- Whether a text has a scheme mark somewhere. -/
def hasScheme : List Char → Bool
  | [] => false
  | c :: cs => schemeMark.isPrefixOf (c :: cs) || hasScheme cs

/-- Splits a location in front of its path. A location without a scheme is all path. -/
def splitAuthority (location : List Char) : List Char × List Char :=
  if hasScheme location then go location else ([], location)
where
  /-- Takes what stands in front of the scheme mark, the mark, and what follows up to a slash. -/
  go : List Char → List Char × List Char
    | [] => ([], [])
    | c :: cs =>
      if schemeMark.isPrefixOf (c :: cs) then
        let rest := (c :: cs).drop schemeMark.length
        (schemeMark ++ rest.takeWhile (· ≠ '/'), rest.dropWhile (· ≠ '/'))
      else ((c :: (go cs).1), (go cs).2)

/-- The location that a hint names for a module at another location. A hint with a scheme stands for
itself; any other is a path as seen from the directory of the module. -/
def resolveChars (hint base : List Char) : List Char :=
  if hasScheme hint then hint
  else
    let (authority, path) := splitAuthority base
    let target := ((Path.ofChars path).parent.append (.ofChars hint)).normalize
    if authority = [] ∨ target.isAbsolute then authority ++ target.toChars
    else authority ++ '/' :: target.toChars

/-- The location that a hint names, for a module whose own location may be unknown. -/
def resolve (hint : String) (base : Option String) : String :=
  String.ofList (resolveChars hint.toList (base.getD "").toList)

end ModuleLocation

end XQuerySyntax
