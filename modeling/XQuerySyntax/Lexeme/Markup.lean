import XQuerySyntax.Lexeme.Reference

/-!
Text inside markup: character data in element content and attribute values, and the bodies of
comments, literal sections, processing instructions and pragmas, which end at a fixed terminator.
-/

namespace XQuerySyntax

/-- Character data between markup. -/
structure MarkupText where
  value : String
  /-- The text consists of literal blanks only, so it may be boundary whitespace. -/
  boundary : Bool
  deriving DecidableEq, Repr, Inhabited

/-- Character data before its characters are packed. -/
structure MarkupRun where
  chars : List Char
  boundary : Bool

namespace MarkupRun

/-- No text. -/
def empty : MarkupRun := ⟨[], true⟩

/-- Puts a literal character in front. In an attribute value every blank becomes a space. -/
def consLiteral (inAttribute : Bool) (c : Char) (run : MarkupRun) : MarkupRun :=
  ⟨(if inAttribute && isBlank c then ' ' else c) :: run.chars, isBlank c && run.boundary⟩

/-- Puts an escaped character in front, which makes the text significant. -/
def consEscaped (c : Char) (run : MarkupRun) : MarkupRun :=
  ⟨c :: run.chars, false⟩

end MarkupRun

/-- Whether literal text of a run ends before this character. -/
def endsLiteralRun (delimiter : Option Char) (c : Char) : Bool :=
  c == '<' || c == '&' || c == '{' || c == '}' || some c == delimiter

/-- Reads character data up to markup, an enclosed expression, the closing delimiter or the end. -/
def scanMarkupRun (delimiter : Option Char) (text : List Char) : Scanned MarkupRun :=
  match text with
  | [] => .found .empty []
  | c :: cs =>
    if endsLiteralRun delimiter c then
      -- A brace that is written twice is text in every place.
      if (c = '{' ∨ c = '}') ∧ cs.head? = some c then
        (scanMarkupRun delimiter (cs.drop 1)).map (.consEscaped c)
      else if c = '}' then .faulty .loneBrace (c :: cs)
      else if c = '&' then
        match h : scanReference (c :: cs) with
        | .found value rest =>
          have := length_of_scanReference h
          (scanMarkupRun delimiter rest).map (.consEscaped value)
        | .absent => .absent
        | .faulty fault place => .faulty fault place
      else if c = '<' ∧ delimiter.isSome then .faulty .lessThanInAttribute (c :: cs)
      else if some c = delimiter ∧ cs.head? = some c then
        (scanMarkupRun delimiter (cs.drop 1)).map (.consEscaped c)
      -- Markup in content, an enclosed expression, or the end of the attribute value.
      else .found .empty (c :: cs)
    else (scanMarkupRun delimiter cs).map (.consLiteral delimiter.isSome c)
termination_by text.length
decreasing_by
  all_goals first
    | assumption
    | (simp only [List.length_drop, List.length_cons]; omega)

/-- Character data of an attribute value with the given delimiter, or of element content if there
is none. Absent when there is no text before the next markup. -/
def scanMarkupText (delimiter : Option Char) (text : List Char) : Scanned MarkupText :=
  match scanMarkupRun delimiter text with
  | .found run rest =>
    -- Nothing was read.
    if rest.length = text.length then .absent
    else .found ⟨String.ofList run.chars, run.boundary⟩ rest
  | .absent => .absent
  | .faulty fault place => .faulty fault place

/-- Whether two hyphens stand next to each other. -/
def hasDoubleHyphen : List Char → Bool
  | '-' :: '-' :: _ => true
  | _ :: cs => hasDoubleHyphen cs
  | [] => false

/-- The body of a comment in markup, from behind its opener. Its text has no double hyphen and
does not end in a hyphen. -/
def scanMarkupComment (text : List Char) : Scanned String :=
  match Scanned.splitAt? "-->".toList text with
  | some (body, rest) =>
    if hasDoubleHyphen body || body.getLast? == some '-' then .faulty .doubleHyphenInComment text
    else .found (String.ofList body) rest
  | none => .faulty (.unterminated "XML comment") text

/-- The body of a literal section, from behind its opener. -/
def scanLiteralSection (text : List Char) : Scanned String :=
  match Scanned.splitAt? "]]>".toList text with
  | some (body, rest) => .found (String.ofList body) rest
  | none => .faulty (.unterminated "CDATA section") text

/-- The content of a processing instruction or pragma, from behind its name: nothing, or blanks and
then text up to the terminator. -/
def scanDelimited (terminator construct : String) (text : List Char) : Scanned String :=
  if terminator.toList.isPrefixOf text then .found "" (text.drop terminator.toList.length)
  else if text.head?.any isBlank then
    match Scanned.splitAt? terminator.toList (text.dropWhile isBlank) with
    | some (body, rest) => .found (String.ofList body) rest
    | none => .faulty (.unterminated construct) text
  else .faulty .missingSpaceAfterName text

end XQuerySyntax
