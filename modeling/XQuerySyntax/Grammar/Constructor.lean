import XQuerySyntax.Grammar.Sequence
import XQuerySyntax.Terminals.Expr

/-!
Elements, comments and processing instructions written as markup. The markup states of the scanner
follow the markup: an element pushes the state inside its tag and its end pops it; an enclosed
expression pushes the state before an operand and pops back into the markup that it stands in.
Namespaces bound by a start tag are in scope in the element.
A computed constructor is a keyword, a name that is written or computed, and content in braces.
-/

namespace XQuerySyntax

/-- A name as written. -/
def LexicalName.text (n : LexicalName) : String :=
  match n.qualifier with
  | some q => q ++ ":" ++ n.localPart
  | none => n.localPart

/-- An attribute before its name is resolved. -/
structure RawAttribute where
  name : LexicalName
  value : List (AttributeValuePart Expr)
  offset : Nat

/-- Adds text to an attribute value, joining it with text at the end. -/
def AttributeValuePart.addText {ε : Type} (parts : List (AttributeValuePart ε)) (text : String) :
    List (AttributeValuePart ε) :=
  match parts.getLast? with
  | some (.text last) => parts.dropLast ++ [.text (last ++ text)]
  | _ => parts ++ [.text text]

/-- Adds text to element content, joining it with text at the end. -/
def DirContent.addText {ε : Type} (content : List (DirContent ε)) (text : String) :
    List (DirContent ε) :=
  match content.getLast? with
  | some (.text last) => content.dropLast ++ [.text (last ++ text)]
  | _ => content ++ [.text text]

/-- The literal text of an attribute value. -/
def AttributeValuePart.literalText {ε : Type} (parts : List (AttributeValuePart ε)) : String :=
  parts.foldl (fun s p =>
    match p with
    | .text t => s ++ t
    | .enclosed _ => s) ""

/-- The number of enclosed expressions in an attribute value. -/
def AttributeValuePart.enclosedCount {ε : Type} (parts : List (AttributeValuePart ε)) : Nat :=
  parts.countP fun p =>
    match p with
    | .text _ => false
    | .enclosed _ => true

namespace Grammar

open XQuerySyntax.Parser

/-- A comment behind its opener. -/
def dirComment (offset : Nat) : Parser Expr := do
  let text ← lexeme scanMarkupComment
  node (.dirComment (text.getD "")) offset

/-- A processing instruction behind its target. -/
def dirPi (offset : Nat) : Parser Expr := do
  let target ← capturedName 0
  if target.toList.map Char.toLower = "xml".toList then
    record .malformed offset
      ("'" ++ target ++ "' is reserved and cannot be a processing-instruction target")
  let content ← lexeme (scanDelimited "?>" "processing instruction")
  node (.dirPi target (content.getD "")) offset

/-- Binds the namespace of an attribute that declares one, given those declared before it in the
start tag. -/
def namespaceAttribute (qualifier : Option String) (value : List (AttributeValuePart Expr))
    (offset : Nat) (earlier : List NamespaceBinding) : Parser NamespaceBinding := do
  let uri := AttributeValuePart.literalText value
  -- One error for each of them, all at the attribute.
  for _ in List.range (AttributeValuePart.enclosedCount value) do
    record .namespaceAttributeNotLiteral offset
      "a namespace declaration attribute must have a literal value"
  if earlier.any fun b => b.qualifier == qualifier then
    record .duplicateNamespaceAttribute offset
      (match qualifier with
       | some q => "namespace prefix '" ++ q ++ "' is declared twice"
       | none => "the default namespace is declared twice")
  match qualifier with
  | some q =>
    if uri = "" then
      record .emptyNamespaceUri offset
        ("namespace prefix '" ++ q ++ "' cannot be bound to an empty URI")
    checkBinding q uri offset
    amend (·.bind q uri)
  | none =>
    checkDefaultNamespace uri offset
    amend (·.bind "" uri)
  return ⟨qualifier, uri⟩

/-- Resolves the names of attributes, which must all differ. -/
def resolveAttributes : List ExpandedName → List RawAttribute → Parser (List (DirAttribute Expr))
  | _, [] => return []
  | seen, a :: rest => do
    let name ← plainName a.name a.offset
    if seen.contains name.expanded then
      record .duplicateAttribute a.offset ("attribute '" ++ name.text ++ "' occurs more than once")
    return ⟨name, a.value, a.offset⟩ :: (← resolveAttributes (name.expanded :: seen) rest)

variable (single : Parser Expr)

/-- An enclosed expression in markup, behind its opening brace. -/
def enclosedContent : Parser Expr := do
  let offset ← start
  if ← eat Terminal.enclosedClose then
    return ← node (.sequence []) offset
  let e ← expr single
  if !(← eat Terminal.enclosedClose) then
    unexpected "'\x7d'"
  return e

/-- The next step of reading an attribute value up to its delimiter, given the parts before. -/
def attributeValueStep (delimiter : Char) (close : Rule) (parts : List (AttributeValuePart Expr)) :
    Parser (List (AttributeValuePart Expr) ⊕ List (AttributeValuePart Expr)) := do
  -- A delimiter written twice is text, so text is tried before the end.
  if let some text ← lexeme (scanMarkupText (some delimiter)) then
    return .inl (AttributeValuePart.addText parts text.value)
  if ← eat close then
    return .inr parts
  if ← eat Terminal.enclosedOpen then
    return .inl (parts ++ [.enclosed (← enclosedContent single)])
  unexpected "the end of the attribute value"

/-- A quoted attribute value. -/
def attributeValue : Parser (List (AttributeValuePart Expr)) := do
  if ← eat Terminal.attributeQuotOpen then
    return ← iterate (attributeValueStep single '"' Terminal.attributeQuotClose) []
  if ← eat Terminal.attributeAposOpen then
    return ← iterate (attributeValueStep single '\'' Terminal.attributeAposClose) []
  unexpected "a quoted attribute value"

/-- The attributes of a start tag: those that bind namespaces, and the others. -/
structure TagAttributes where
  raw : List RawAttribute
  namespaces : List NamespaceBinding

/-- Reads the next attribute, if there is one. -/
def tagAttributeStep (tag : TagAttributes) : Parser (TagAttributes ⊕ TagAttributes) := do
  if !(← eat Terminal.attributeName) then
    return .inr tag
  let offset ← start
  let name ← capturedQualifiedName 0
  let value ← attributeValue single
  if name.qualifier = none ∧ name.localPart = "xmlns" then
    let binding ← namespaceAttribute none value offset tag.namespaces
    return .inl { tag with namespaces := tag.namespaces ++ [binding] }
  if name.qualifier = some "xmlns" then
    let binding ← namespaceAttribute (some name.localPart) value offset tag.namespaces
    return .inl { tag with namespaces := tag.namespaces ++ [binding] }
  return .inl { tag with raw := tag.raw ++ [⟨name, value, offset⟩] }

variable (element : Nat → Parser Expr)

/-- A node nested in element content, if one begins here. -/
def nestedNode : Parser (Option (DirContent Expr)) := do
  if ← eat Terminal.nestedElementOpen then
    return some (.node (← element (← start)))
  if ← eat Terminal.cdataOpen then
    let body ← lexeme scanLiteralSection
    return some (.literalSection (body.getD ""))
  if ← eat Terminal.nestedCommentOpen then
    return some (.node (← dirComment (← start)))
  if ← eat Terminal.nestedPiOpen then
    return some (.node (← dirPi (← start)))
  return none

/-- Stops unless an end tag has the name of its start tag. -/
def checkEndTag (opened : LexicalName) : Parser Unit := do
  let closed ← capturedQualifiedName 0
  if closed ≠ opened then
    fatal .tagMismatch (← start)
      ("end tag '" ++ closed.text ++ "' does not match start tag '" ++ opened.text ++ "'")

/-- The next step of reading element content through the end tag, given the content before. -/
def elementContentStep (strip : Bool) (opened : LexicalName) (content : List (DirContent Expr)) :
    Parser (List (DirContent Expr) ⊕ List (DirContent Expr)) := do
  if ← eat Terminal.endTag then
    checkEndTag opened
    return .inr content
  if let some inner ← nestedNode element then
    return .inl (content ++ [inner])
  if let some text ← lexeme (scanMarkupText none) then
    -- Blanks between markup are dropped unless one of them is escaped.
    if strip && text.boundary then
      return .inl content
    return .inl (DirContent.addText content text.value)
  if ← eat Terminal.enclosedOpen then
    return .inl (content ++ [.enclosed (← enclosedContent single)])
  if ← observe (·.cursor.atEnd) (fun _ => true) then
    fatal .malformed (← observe (·.cursor.pos) fun _ => true) ("element '" ++ opened.text ++ "' is not closed")
  unexpected "element content"

/-- The content of an element through its end tag. -/
def elementContent (opened : LexicalName) : Parser (List (DirContent Expr)) := do
  let strip ← consult (·.boundarySpace == .strip)
  iterate (elementContentStep single element strip opened) []

/-- An element behind its name. -/
def elementInFrame (opened : LexicalName) (offset : Nat) : Parser Expr := do
  let tag ← iterate (tagAttributeStep single) ⟨[], []⟩
  -- The namespaces of the start tag are in scope for its own names.
  let name ← elementName opened offset
  let attributes ← resolveAttributes [] tag.raw
  let namespaces := tag.namespaces
  if ← eat Terminal.emptyTagClose then
    return ← node (.dirElement { name, attributes, namespaces, content := [], selfClosing := true })
      offset
  if !(← eat Terminal.startTagClose) then
    unexpected "an attribute, '>' or '/>'"
  let content ← elementContent single element opened
  node (.dirElement { name, attributes, namespaces, content, selfClosing := false }) offset

/-- An element behind its name, with at most so many elements inside one another. The namespaces
bound by its start tag go out of scope with it. -/
def dirElementWithin : Nat → Nat → Parser Expr
  | 0, _ => exhausted
  | n + 1, offset => do
    -- The name is read now, because the next match replaces what this one captured.
    let opened ← capturedQualifiedName 0
    nested do
      amend StaticContext.pushFrame
      let e ← elementInFrame single (dirElementWithin n) opened offset
      amend StaticContext.popFrame
      return e

/-- An element behind its name. -/
def dirElement (offset : Nat) : Parser Expr := do
  dirElementWithin single (← get).steps offset

/-- A node written as markup, if one begins here. -/
def directConstructor : Parser (Option Expr) := do
  if ← eat Terminal.elementOpen then
    return some (← dirElement single (← start))
  if ← eat Terminal.commentOpen then
    return some (← dirComment (← start))
  if ← eat Terminal.piOpen then
    return some (← dirPi (← start))
  return none

end Grammar

end XQuerySyntax

/-! ### Computed constructors -/

namespace XQuerySyntax.Grammar

open XQuerySyntax.Parser

variable (single : Parser Expr)

/-- A computed name. -/
def computedName : Parser (ComputedName Expr) := do
  return .expr (← bracedExpr single)

/-- The captured simple name, which is in no namespace. -/
def literalName : Parser (ComputedName Expr) := do
  return .literal ⟨none, ← capturedName 0, none⟩

/-- The form of a computed constructor, if one begins here. -/
def computedKind : Parser (Option (ExprKind Expr)) := do
  if ← eat Terminal.computedDocument then
    return some (.compDocument (← enclosedExpr single))
  if ← eat Terminal.computedElementNamed then
    let offset ← start
    let name ← elementName (← capturedQualifiedName 0) offset
    return some (.compElement (.literal name) (← optionalExpr single))
  if ← eat Terminal.computedElement then
    let name ← computedName single
    return some (.compElement name (← optionalExpr single))
  if ← eat Terminal.computedAttributeNamed then
    let offset ← start
    let name ← plainName (← capturedQualifiedName 0) offset
    return some (.compAttribute (.literal name) (← optionalExpr single))
  if ← eat Terminal.computedAttribute then
    let name ← computedName single
    return some (.compAttribute name (← optionalExpr single))
  if ← eat Terminal.computedText then
    return some (.compText (← enclosedExpr single))
  if ← eat Terminal.computedComment then
    return some (.compComment (← enclosedExpr single))
  if ← eat Terminal.computedPiNamed then
    let target ← literalName
    return some (.compPi target (← optionalExpr single))
  if ← eat Terminal.computedPi then
    let target ← computedName single
    return some (.compPi target (← optionalExpr single))
  if ← eat Terminal.computedNamespaceNamed then
    let name ← literalName
    return some (.compNamespace name (← enclosedExpr single))
  if ← eat Terminal.computedNamespace then
    let name ← computedName single
    return some (.compNamespace name (← enclosedExpr single))
  return none

/-- A computed constructor, if one begins here. -/
def computedConstructor : Parser (Option Expr) := do
  let offset ← nextOffset
  match ← computedKind single with
  | none => return none
  | some kind => return some (← node kind offset)

end XQuerySyntax.Grammar
