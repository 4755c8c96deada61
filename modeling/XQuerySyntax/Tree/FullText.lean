import XQuerySyntax.Diagnostic
import XQuerySyntax.Lexeme.Numeral
import XQuerySyntax.Tree.Name

/-!
Full-text selections: what a search looks for, the options of matching words, and conditions on the
positions of matches. The type of the expressions inside a selection is a parameter; match options
hold no expressions but constants.
-/

namespace XQuerySyntax

/-- A constant together with where it is written. -/
structure LiteralNode where
  value : Literal
  offset : Nat
  module : ModuleId
  deriving DecidableEq, Repr, Inhabited

/-- An instruction to the processor. -/
structure Pragma where
  name : QName
  contents : String
  deriving DecidableEq, Repr, Inhabited

/-- How the words of a search text are matched. -/
inductive FtAnyAll where
  | any
  | anyWord
  | all
  | allWords
  | phrase
  deriving DecidableEq, Repr, Inhabited

/-- How letter case is matched. -/
inductive FtCase where
  | sensitive
  | insensitive
  | lowercase
  | uppercase
  deriving DecidableEq, Repr, Inhabited

/-- How diacritics are matched. -/
inductive FtDiacritics where
  | sensitive
  | insensitive
  deriving DecidableEq, Repr, Inhabited

/-- How a further source of stop words changes the words collected so far. -/
inductive FtStopWordCombine where
  | union
  | except
  deriving DecidableEq, Repr, Inhabited

/-- Where stop words come from. -/
inductive FtStopWords where
  | default
  | stored (location : String)
  | list (words : List String)
  deriving DecidableEq, Repr, Inhabited

/-- One source of stop words; the first one has no combinator. -/
structure FtStopWordSource where
  combine : Option FtStopWordCombine
  words : FtStopWords
  deriving DecidableEq, Repr, Inhabited

/-- The stop words to leave out. -/
structure FtStopWordOption where
  enabled : Bool
  sources : List FtStopWordSource
  deriving DecidableEq, Repr, Inhabited

/-- A range of numbers. -/
inductive FtRange (ε : Type) where
  | exactly (bound : ε)
  | atLeast (bound : ε)
  | atMost (bound : ε)
  | fromTo (low high : ε)
  deriving DecidableEq, Repr

/-- One thesaurus. -/
structure FtThesaurusId where
  location : String
  relationship : Option String
  levels : Option (FtRange LiteralNode)
  deriving DecidableEq, Repr

/-- The use of thesauri. -/
structure FtThesaurusOption where
  enabled : Bool
  includeDefault : Bool
  thesauri : List FtThesaurusId
  deriving DecidableEq, Repr

/-- Options of a search. Each may be given once; extension options may be repeated. -/
structure FtMatchOptions where
  language : Option String
  wildcards : Option Bool
  thesaurus : Option FtThesaurusOption
  stemming : Option Bool
  stopWords : Option FtStopWordOption
  letterCase : Option FtCase
  diacritics : Option FtDiacritics
  extensions : List (QName × String)
  deriving DecidableEq, Repr

namespace FtMatchOptions

/-- No option at all. -/
def empty : FtMatchOptions :=
  ⟨none, none, none, none, none, none, none, []⟩

instance : Inhabited FtMatchOptions := ⟨empty⟩

/-- Whether no option is given. -/
def isEmpty (o : FtMatchOptions) : Bool := o == empty

end FtMatchOptions

/-- Units in which distances are counted. -/
inductive FtUnit where
  | words
  | sentences
  | paragraphs
  deriving DecidableEq, Repr, Inhabited

/-- Units that matches may share. -/
inductive FtBigUnit where
  | sentence
  | paragraph
  deriving DecidableEq, Repr, Inhabited

/-- A condition on the positions of matches. -/
inductive FtPosFilter (ε : Type) where
  | ordered
  | window (size : ε) (unit : FtUnit)
  | distance (range : FtRange ε) (unit : FtUnit)
  | scope (same : Bool) (unit : FtBigUnit)
  | atStart
  | atEnd
  | entireContent
  deriving DecidableEq, Repr, Inhabited

/-- What a full-text search looks for. -/
inductive FtSelection (ε : Type) where
  | or (operands : List (FtSelection ε))
  | and (operands : List (FtSelection ε))
  | mildNot (operands : List (FtSelection ε))
  | not (operand : FtSelection ε)
  /-- Words written in the query. -/
  | words (text : String) (mode : FtAnyAll) (times : Option (FtRange ε))
  /-- Words that an expression gives. -/
  | computedWords (words : ε) (mode : FtAnyAll) (times : Option (FtRange ε))
  | withOptions (selection : FtSelection ε) (options : FtMatchOptions) (weight : Option ε)
  | positional (selection : FtSelection ε) (filters : List (FtPosFilter ε))
  | extension (pragmas : List Pragma) (selection : Option (FtSelection ε))

instance (ε : Type) : Inhabited (FtSelection ε) := ⟨.words "" .any none⟩

end XQuerySyntax
