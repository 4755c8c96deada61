/-!
Settings of a parse: the extensions of the language that are switched on, the namespaces bound from
outside, and the limit on nesting.
-/

namespace XQuerySyntax

/-- The language and its extensions. -/
inductive Extension where
  | core
  | fullText
  | update
  | scripting
  deriving DecidableEq, Repr, Inhabited

/-- Which extensions are switched on. -/
structure Extensions where
  fullText : Bool
  update : Bool
  scripting : Bool
  deriving DecidableEq, Repr, Inhabited

namespace Extensions

/-- All extensions. -/
def all : Extensions := ⟨true, true, true⟩

/-- The plain language. -/
def none : Extensions := ⟨false, false, false⟩

/-- The plain language is always on. -/
def enables (e : Extensions) : Extension → Bool
  | .core => true
  | .fullText => e.fullText
  | .update => e.update
  | .scripting => e.scripting

end Extensions

/-- What happens to boundary whitespace in direct constructors. -/
inductive BoundarySpace where
  | preserve
  | strip
  deriving DecidableEq, Repr, Inhabited

/-- The settings of a parse. -/
structure Config where
  /-- Where the module comes from. -/
  sourceUri : Option String
  extensions : Extensions
  /-- Prefixes and the namespaces they are bound to from outside. -/
  namespaces : List (String × String)
  boundarySpace : BoundarySpace
  /-- The largest number of constructs open inside one another. -/
  maxDepth : Nat
  deriving DecidableEq, Repr

namespace Config

/-- All extensions on, boundary whitespace stripped, 256 levels. -/
def standard : Config :=
  ⟨none, Extensions.all, [], .strip, 256⟩

/-- The plain language with the other settings as usual. -/
def coreOnly : Config :=
  { standard with extensions := Extensions.none }

instance : Inhabited Config := ⟨standard⟩

/-- Whether an extension is switched on. -/
def enables (c : Config) (e : Extension) : Bool := c.extensions.enables e

/-- The number of bytes of stack that the nesting limit calls for, at most what 64 bits can
count. -/
def stackSize (c : Config) : Nat :=
  min (UInt64.size - 1) (min (UInt64.size - 1) (c.maxDepth * (160 * 1024)) + 1024 * 1024)

end Config

end XQuerySyntax
