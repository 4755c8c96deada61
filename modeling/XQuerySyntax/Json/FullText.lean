import XQuerySyntax.Json.Type
import XQuerySyntax.Tree.FullText

/-!
Full-text selections as JSON. The expressions inside are encoded by a function that is given.
-/

namespace XQuerySyntax

open Json

/-- A constant as JSON. Decimals are strings of plain digits. -/
def Literal.toJson : Literal → Json
  | .string value => variant "String" (Json.string value)
  | .integer value => variant "Integer" (number value)
  | .decimal value => variant "Decimal" (Json.string value.toText)
  | .double value => variant "Double" (real value)

/-- A node of the syntax tree as JSON, given its encoded form. -/
def nodeToJson (kind : Json) (offset : Nat) (module : ModuleId) : Json :=
  object [("kind", kind), ("offset", number offset), ("module", string module.text)]

/-- A constant with its place as JSON. -/
def LiteralNode.toJson (l : LiteralNode) : Json :=
  nodeToJson (variant "Literal" l.value.toJson) l.offset l.module

/-- An instruction to the processor as JSON. -/
def Pragma.toJson (p : Pragma) : Json :=
  object [("name", p.name.toJson), ("contents", string p.contents)]

/-- A mode of matching words as JSON. -/
def FtAnyAll.toJson : FtAnyAll → Json
  | .any => string "Any"
  | .anyWord => string "AnyWord"
  | .all => string "All"
  | .allWords => string "AllWords"
  | .phrase => string "Phrase"

/-- A case option as JSON. -/
def FtCase.toJson : FtCase → Json
  | .sensitive => string "Sensitive"
  | .insensitive => string "Insensitive"
  | .lowercase => string "Lowercase"
  | .uppercase => string "Uppercase"

/-- A diacritics option as JSON. -/
def FtDiacritics.toJson : FtDiacritics → Json
  | .sensitive => string "Sensitive"
  | .insensitive => string "Insensitive"

/-- A combinator of stop words as JSON. -/
def FtStopWordCombine.toJson : FtStopWordCombine → Json
  | .union => string "Union"
  | .except => string "Except"

/-- Stop words as JSON. -/
def FtStopWords.toJson : FtStopWords → Json
  | .default => string "Default"
  | .stored location => variant "At" (string location)
  | .list words => variant "List" (Json.list Json.string words)

/-- A source of stop words as JSON. -/
def FtStopWordSource.toJson (s : FtStopWordSource) : Json :=
  object [("combine", optional FtStopWordCombine.toJson s.combine), ("words", s.words.toJson)]

/-- A stop word option as JSON. -/
def FtStopWordOption.toJson (o : FtStopWordOption) : Json :=
  object [("enabled", bool o.enabled), ("sources", list FtStopWordSource.toJson o.sources)]

/-- A range as JSON. -/
def FtRange.toJson {ε : Type} (encode : ε → Json) : FtRange ε → Json
  | .exactly bound => variant "Exactly" (encode bound)
  | .atLeast bound => variant "AtLeast" (encode bound)
  | .atMost bound => variant "AtMost" (encode bound)
  | .fromTo low high => tuple "FromTo" [encode low, encode high]

/-- A thesaurus as JSON. -/
def FtThesaurusId.toJson (t : FtThesaurusId) : Json :=
  object [("at", string t.location), ("relationship", optional string t.relationship),
    ("levels", optional (FtRange.toJson LiteralNode.toJson) t.levels)]

/-- A thesaurus option as JSON. -/
def FtThesaurusOption.toJson (o : FtThesaurusOption) : Json :=
  object [("enabled", bool o.enabled), ("include_default", bool o.includeDefault),
    ("thesauri", list FtThesaurusId.toJson o.thesauri)]

/-- Match options as JSON. -/
def FtMatchOptions.toJson (o : FtMatchOptions) : Json :=
  object
    [("language", optional string o.language),
      ("wildcards", optional bool o.wildcards),
      ("thesaurus", optional FtThesaurusOption.toJson o.thesaurus),
      ("stemming", optional bool o.stemming),
      ("stop_words", optional FtStopWordOption.toJson o.stopWords),
      ("case", optional FtCase.toJson o.letterCase),
      ("diacritics", optional FtDiacritics.toJson o.diacritics),
      ("extensions", list (fun e => array [e.1.toJson, string e.2]) o.extensions)]

/-- A unit as JSON. -/
def FtUnit.toJson : FtUnit → Json
  | .words => string "Words"
  | .sentences => string "Sentences"
  | .paragraphs => string "Paragraphs"

/-- A shared unit as JSON. -/
def FtBigUnit.toJson : FtBigUnit → Json
  | .sentence => string "Sentence"
  | .paragraph => string "Paragraph"

/-- A condition on positions as JSON. -/
def FtPosFilter.toJson {ε : Type} (encode : ε → Json) : FtPosFilter ε → Json
  | .ordered => string "Ordered"
  | .window size unit => tuple "Window" [encode size, unit.toJson]
  | .distance range unit => tuple "Distance" [range.toJson encode, unit.toJson]
  | .scope same unit => record "Scope" [("same", bool same), ("unit", unit.toJson)]
  | .atStart => string "AtStart"
  | .atEnd => string "AtEnd"
  | .entireContent => string "EntireContent"

/-- A list of words as JSON. -/
def wordsToJson {ε : Type} (encode : ε → Json) (value : Json) (mode : FtAnyAll)
    (times : Option (FtRange ε)) : Json :=
  record "Words"
    [("value", value), ("mode", mode.toJson), ("times", optional (FtRange.toJson encode) times)]

mutual

/-- A selection as JSON. -/
def FtSelection.toJson {ε : Type} (encode : ε → Json) : FtSelection ε → Json
  | .or operands => variant "Or" (array (FtSelection.listToJson encode operands))
  | .and operands => variant "And" (array (FtSelection.listToJson encode operands))
  | .mildNot operands => variant "MildNot" (array (FtSelection.listToJson encode operands))
  | .not operand => variant "Not" (operand.toJson encode)
  | .words text mode times => wordsToJson encode (variant "Literal" (string text)) mode times
  | .computedWords source mode times =>
    wordsToJson encode (variant "Expr" (encode source)) mode times
  | .withOptions selection options weight =>
    record "WithOptions"
      [("selection", selection.toJson encode), ("options", options.toJson),
        ("weight", optional encode weight)]
  | .positional selection filters =>
    record "Positional"
      [("selection", selection.toJson encode), ("filters", list (FtPosFilter.toJson encode) filters)]
  | .extension pragmas none =>
    record "Extension" [("pragmas", list Pragma.toJson pragmas), ("selection", null)]
  | .extension pragmas (some selection) =>
    record "Extension"
      [("pragmas", list Pragma.toJson pragmas), ("selection", selection.toJson encode)]

/-- Selections as JSON, one after the other. -/
def FtSelection.listToJson {ε : Type} (encode : ε → Json) : List (FtSelection ε) → List Json
  | [] => []
  | s :: ss => s.toJson encode :: FtSelection.listToJson encode ss

end

end XQuerySyntax
