import XQuerySyntax.Static.Table

/-!
Where module texts come from. A provider answers a location with a text or says why there is none.
Providers may have a state of their own, so the same location need not always have the same text.
-/

namespace XQuerySyntax

/-- Why a location has no text. -/
inductive SourceError where
  | notFound (location : String)
  | readFailed (location reason : String)
  /-- What is there is not UTF-8. -/
  | invalidEncoding (location : String)
  deriving DecidableEq, Repr, Inhabited

namespace SourceError

/-- The error in words. -/
def message : SourceError → String
  | notFound location => "Source not found: " ++ location
  | readFailed location reason => "Failed to read source '" ++ location ++ "': " ++ reason
  | invalidEncoding location => "Source '" ++ location ++ "' is not valid UTF-8"

end SourceError

/-- A provider of module texts, with states of type `π`. -/
structure SourceProvider (π : Type) where
  name : String
  /-- The text at a location. -/
  read : (location : String) → π → Except SourceError String × π
  /-- Whether there is something to read at a location. -/
  has : (location : String) → π → Bool

/-- Texts by location. -/
abbrev MemorySources := Table String String

namespace MemorySources

/-- The provider of texts held in memory. -/
def provider : SourceProvider MemorySources where
  name := "InMemorySourceProvider"
  read location sources :=
    match Table.get? sources location with
    | some text => (.ok text, sources)
    | none => (.error (.notFound location), sources)
  has location sources := Table.has sources location

end MemorySources

/-! ### Texts that have been read so far

A location not read yet is answered as missing and noted, so that it can be read and the work done
again; once nothing is noted the answer is the final one. -/

/-- What is known of some locations, and which others were asked for. -/
structure Snapshot where
  known : Table String (Except SourceError String)
  wanted : List String

namespace Snapshot

/-- Nothing known, nothing asked for. -/
def empty : Snapshot := ⟨[], []⟩

/-- What is known of a location, which is noted if that is nothing. -/
def read (location : String) (s : Snapshot) : Except SourceError String × Snapshot :=
  match s.known.get? location with
  | some answer => (answer, s)
  | none => (.error (.notFound location), { s with wanted := s.wanted ++ [location] })

/-- The provider of what is known. -/
def provider : SourceProvider Snapshot where
  name := "Snapshot"
  read := read
  has location s := (s.known.get? location).any fun answer => answer.toOption.isSome

/-- Adds what a location holds. -/
def learn (s : Snapshot) (location : String) (answer : Except SourceError String) : Snapshot :=
  { s with known := s.known.put location answer }

end Snapshot

end XQuerySyntax
