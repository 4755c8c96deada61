import XQuerySyntax.Lexeme.Scanned

/-!
Names. A simple name is the longest run of name characters that starts with a name-start
character; a qualified name is one or two of them with a colon between. A colon that no name
follows is left in the text.
-/

namespace XQuerySyntax

/-- A name as written, before its qualifier is resolved. -/
structure LexicalName where
  qualifier : Option String
  localPart : String
  deriving DecidableEq, Repr, Inhabited

namespace LexicalName

/-- A name without a qualifier. -/
def ofLocal (name : String) : LexicalName := ⟨none, name⟩

end LexicalName

/-- The longest simple name. -/
def scanName : List Char → Scanned String
  | [] => .absent
  | c :: cs =>
    if isNameStart c then
      .found (String.ofList (c :: cs.takeWhile isNameChar)) (cs.dropWhile isNameChar)
    else .absent

/-- A simple name, or two joined by a colon. -/
def scanQualifiedName (text : List Char) : Scanned LexicalName :=
  match scanName text with
  | .found first (':' :: rest) =>
    match scanName rest with
    | .found second rest' => .found ⟨some first, second⟩ rest'
    | _ => .found ⟨none, first⟩ (':' :: rest)
  | .found first rest => .found ⟨none, first⟩ rest
  | .absent => .absent
  | .faulty fault place => .faulty fault place

end XQuerySyntax
