import XQuerySyntax.Grammar.SequenceType
import XQuerySyntax.Terminals.FullText

/-!
Match options of full-text searches. Each option may be given once; a repeated one is recorded, and
the later value counts. A thesaurus option is read in a lexical state of its own.
-/

namespace XQuerySyntax

/-- One match option. -/
inductive FtMatchOption where
  | letterCase (value : FtCase)
  | diacritics (value : FtDiacritics)
  | stemming (enabled : Bool)
  | wildcards (enabled : Bool)
  | language (name : String)
  | extension (name : QName) (value : String)
  | thesaurus (value : FtThesaurusOption)
  | stopWords (value : FtStopWordOption)

namespace FtMatchOption

/-- The name of the option in messages. -/
def label : FtMatchOption → String
  | letterCase _ => "case"
  | diacritics _ => "diacritics"
  | stemming _ => "stemming"
  | wildcards _ => "wildcards"
  | language _ => "language"
  | extension .. => "option"
  | thesaurus _ => "thesaurus"
  | stopWords _ => "stop words"

/-- Whether options already hold a value for this one. Extension options never clash. -/
def isGiven (o : FtMatchOptions) : FtMatchOption → Bool
  | letterCase _ => o.letterCase.isSome
  | diacritics _ => o.diacritics.isSome
  | stemming _ => o.stemming.isSome
  | wildcards _ => o.wildcards.isSome
  | language _ => o.language.isSome
  | extension .. => false
  | thesaurus _ => o.thesaurus.isSome
  | stopWords _ => o.stopWords.isSome

/-- Puts the option into a set of options. -/
def addTo (o : FtMatchOptions) : FtMatchOption → FtMatchOptions
  | letterCase value => { o with letterCase := some value }
  | diacritics value => { o with diacritics := some value }
  | stemming enabled => { o with stemming := some enabled }
  | wildcards enabled => { o with wildcards := some enabled }
  | language name => { o with language := some name }
  | extension name value => { o with extensions := o.extensions ++ [(name, value)] }
  | thesaurus value => { o with thesaurus := some value }
  | stopWords value => { o with stopWords := some value }

end FtMatchOption

namespace Grammar

open XQuerySyntax.Parser

/-- A number of the last match, as a constant of the module. -/
def capturedConstant (i : Nat) : Parser LiteralNode := do
  let value ← capturedNumber? i
  return ⟨value.getD (.integer 0), ← start, (← get).module⟩

/-- The number of levels of a thesaurus relationship. -/
def thesaurusLevels : Parser (Option (FtRange LiteralNode)) := do
  if ← eat Terminal.exactlyLevels then
    return some (.exactly (← capturedConstant 0))
  if ← eat Terminal.atLeastLevels then
    return some (.atLeast (← capturedConstant 0))
  if ← eat Terminal.atMostLevels then
    return some (.atMost (← capturedConstant 0))
  if ← eat Terminal.fromToLevels then
    return some (.fromTo (← capturedConstant 0) (← capturedConstant 1))
  return none

/-- One thesaurus. -/
def thesaurusId : Parser FtThesaurusId := do
  expect Terminal.thesaurusAt
  let location ← capturedString 0
  let relationship ← whenEats Terminal.relationship (capturedString 0)
  let levels ← thesaurusLevels
  if levels.isSome then
    expect Terminal.levelsWord
  return { location, relationship, levels }

/-- The default thesaurus, or one that is named. -/
def thesaurus : Parser (Option FtThesaurusId) := do
  if ← eat Terminal.thesaurusDefault then return none else return some (← thesaurusId)

/-- One thesaurus, or a list of them in parentheses. -/
def thesaurusOption : Parser FtThesaurusOption := do
  let thesauri ←
    if ← eat Terminal.thesaurusOpen then do
      let thesauri ← separatedBy Terminal.thesaurusComma thesaurus
      expect Terminal.thesaurusClose
      pure thesauri
    else (fun t => [t]) <$> thesaurus
  goto .operator
  return {
    enabled := true
    includeDefault := thesauri.any Option.isNone
    thesauri := thesauri.filterMap id }

/-- Words between parentheses, behind the opening one. -/
def stopWordList : Parser (List String) := do
  let words ← separatedBy Terminal.ftListComma do
    if !(← eat Terminal.ftListString) then unexpected "a string literal"
    capturedString 0
  expect Terminal.ftListClose
  return words

/-- A further source of stop words. The words that join sources are also operators of expressions;
if no source follows, they are left where they are. -/
def furtherStopWords : Parser (Option FtStopWordSource) := do
  let place ← mark
  let combine ← eatFirst [(Terminal.stopWordsUnion, FtStopWordCombine.union),
    (Terminal.stopWordsExcept, .except)]
  if combine.isNone then
    return none
  if ← eat Terminal.ftListAt then
    return some ⟨combine, .stored (← capturedString 0)⟩
  if ← eat Terminal.ftListOpen then
    return some ⟨combine, .list (← stopWordList)⟩
  restore place
  return none

/-- The first source of stop words. -/
def firstStopWords : Parser (Option FtStopWords) := do
  if ← eat Terminal.stopWordsDefault then
    return some .default
  if ← eat Terminal.stopWordsAt then
    return some (.stored (← capturedString 0))
  if ← eat Terminal.stopWordsList then
    return some (.list (← stopWordList))
  return none

/-- The stop words of a search. -/
def stopWordOption : Parser (Option FtStopWordOption) := do
  if ← eat Terminal.noStopWords then
    return some ⟨false, []⟩
  match ← firstStopWords with
  | none => return none
  | some words => return some ⟨true, ⟨none, words⟩ :: (← many furtherStopWords)⟩

/-- One match option, behind the word that announces it at the given offset. -/
def matchOption (offset : Nat) : Parser FtMatchOption := do
  let plain ← eatFirst [(Terminal.caseInsensitive, FtMatchOption.letterCase .insensitive),
    (Terminal.caseSensitive, .letterCase .sensitive), (Terminal.lowercase, .letterCase .lowercase),
    (Terminal.uppercase, .letterCase .uppercase),
    (Terminal.diacriticsInsensitive, .diacritics .insensitive),
    (Terminal.diacriticsSensitive, .diacritics .sensitive),
    (Terminal.noStemming, .stemming false), (Terminal.stemmingOption, .stemming true),
    (Terminal.noWildcards, .wildcards false), (Terminal.wildcardsOption, .wildcards true)]
  if let some option := plain then
    return option
  if ← eat Terminal.languageOption then
    return .language (← capturedString 0)
  if ← eat Terminal.ftExtensionOption then
    let lexical ← capturedQualifiedName 0
    let value ← capturedString 1
    return .extension (← plainName lexical offset) value
  if ← eat Terminal.noThesaurus then
    return .thesaurus ⟨false, false, []⟩
  if ← eat Terminal.thesaurusOption then
    return .thesaurus (← thesaurusOption)
  match ← stopWordOption with
  | some words => return .stopWords words
  | none => unexpected "a match option"

/-- Adds the next match option, if there is one. -/
def addMatchOption (options : FtMatchOptions) : Parser (FtMatchOptions ⊕ FtMatchOptions) := do
  if ← eat Terminal.usingOption then
    let offset ← nextOffset
    let option ← matchOption offset
    if option.isGiven options then
      record .duplicateMatchOption offset
        ("the " ++ option.label ++ " match option is given more than once")
    return .inl (option.addTo options)
  else
    return .inr options

/-- All match options. -/
def matchOptions : Parser FtMatchOptions :=
  iterate addMatchOption .empty

end Grammar

end XQuerySyntax
