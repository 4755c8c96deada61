import XQuerySyntax.Lexeme.Markup
import XQuerySyntax.Proofs.RoundTrip.OperatorTree

/-! Elements written as markup, and how they are serialized. Text between markup and in attribute values
holds any characters: those that would be taken for markup are written twice or as references. -/

namespace XQuerySyntax

/-! ### Text -/

/-- How a character may be written as a reference. -/
inductive Reference (c : Char) : List Char → Prop where
  | named {name : String} (h : (name, c) ∈ namedReferences) :
      Reference c ('&' :: (name.toList ++ [';']))
  | decimal {digits : List Char} (hne : digits ≠ []) (hdigits : ∀ d ∈ digits, d.isDigit)
      (hvalue : Decimal.ofDigits digits = c.toNat) (hxml : isXmlCodePoint c.toNat) :
      Reference c ('&' :: '#' :: (digits ++ [';']))
  | hexadecimal {digits : List Char} (hne : digits ≠ []) (hdigits : ∀ d ∈ digits, isHexDigit d)
      (hvalue : ofHexDigits digits = c.toNat) (hxml : isXmlCodePoint c.toNat) :
      Reference c ('&' :: '#' :: 'x' :: (digits ++ [';']))

/-- How text may be written in an attribute value with this delimiter, or in element content if there
is none: braces and the delimiter twice, any character as a reference, and the others as they are.
Blanks other than the space are no blanks of an attribute value unless they are references. -/
inductive MarkupBody (delimiter : Option Char) : List Char → List Char → Prop where
  | nil : MarkupBody delimiter [] []
  | literal {value body : List Char} (c : Char) (hrun : endsLiteralRun delimiter c = false)
      (hblank : delimiter.isSome → isBlank c → c = ' ') :
      MarkupBody delimiter value body → MarkupBody delimiter (c :: value) (c :: body)
  | doubled {value body : List Char} (c : Char) (h : c = '{' ∨ c = '}' ∨ some c = delimiter) :
      MarkupBody delimiter value body → MarkupBody delimiter (c :: value) (c :: c :: body)
  | reference {value body text : List Char} (c : Char) (h : Reference c text) :
      MarkupBody delimiter value body → MarkupBody delimiter (c :: value) (text ++ body)

/-! ### Trees -/

/-- A piece of an attribute value: text, or a variable in braces. -/
inductive ValuePiece where
  | text (chars : List Char) (hne : chars ≠ [])
  | enclosed (name : SimpleName)

/-- Whether a piece is text. -/
def ValuePiece.isText : ValuePiece → Bool
  | text .. => true
  | enclosed _ => false

/-- No two texts stand side by side. -/
def Apart {α : Type} (isText : α → Bool) : List α → Prop
  | a :: b :: rest => ¬(isText a ∧ isText b) ∧ Apart isText (b :: rest)
  | _ => True

/-- An attribute that binds no namespace. -/
structure MarkupAttribute where
  name : SimpleName
  hname : name.chars ≠ "xmlns".toList
  value : List ValuePiece
  apart : Apart ValuePiece.isText value

/-- Elements and what they contain. -/
inductive MarkupTree where
  | text (chars : List Char) (hne : chars ≠ [])
  /-- A variable in braces. -/
  | enclosed (name : SimpleName)
  | literalSection (chars : List Char) (h : ¬"]]>".toList <:+: chars)
  | comment (chars : List Char) (h : ¬"--".toList <:+: chars) (hlast : chars.getLast? ≠ some '-')
  | instruction (target : SimpleName) (hname : target.chars.map Char.toLower ≠ "xml".toList)
      (chars : List Char) (h : ¬"?>".toList <:+: chars) (hblank : ∀ c ∈ chars.head?, isBlank c = false)
  /-- An element of one tag. -/
  | emptyElement (name : SimpleName) (attributes : List MarkupAttribute)
  /-- An element of a start tag and an end tag. -/
  | element (name : SimpleName) (attributes : List MarkupAttribute) (content : List MarkupTree)

namespace MarkupTree

/-- Whether a tree is text. -/
def isText : MarkupTree → Bool
  | text .. => true
  | _ => false

/-- Whether a tree is an element. -/
def isElement : MarkupTree → Bool
  | emptyElement .. | element .. => true
  | _ => false

mutual

/-- No two texts of the content stand side by side. Two attributes may have one name: that is recorded
and changes nothing in the tree. -/
def WellFormed : MarkupTree → Prop
  | element _ _ content => Apart isText content ∧ AllWellFormed content
  | _ => True

/-- Every one of the trees is well-formed. -/
def AllWellFormed : List MarkupTree → Prop
  | [] => True
  | t :: ts => WellFormed t ∧ AllWellFormed ts

end

end MarkupTree

/-! ### Serializing -/

/-- The text is the piece and then `rest`. -/
def ValuePiece.Writes (delimiter : Char) : ValuePiece → List Char → List Char → Prop
  | text chars _, input, rest => ∃ body, MarkupBody (some delimiter) chars body ∧ input = body ++ rest
  | enclosed n, input, rest => input = '{' :: '$' :: (n.chars ++ '}' :: rest)

/-- The text is the pieces and then `rest`. -/
def ValuePiece.WritesAll (delimiter : Char) : List ValuePiece → List Char → List Char → Prop
  | [], input, rest => input = rest
  | piece :: pieces, input, rest =>
    ∃ mid, piece.Writes delimiter input mid ∧ WritesAll delimiter pieces mid rest

/-- The text is blanks, the attribute between quotes of either kind, and then `rest`. -/
def MarkupAttribute.Writes (a : MarkupAttribute) (input rest : List Char) : Prop :=
  ∃ blanks quote inside, blanks ≠ [] ∧ (∀ c ∈ blanks, isBlank c) ∧ (quote = '"' ∨ quote = '\'') ∧
    input = blanks ++ (a.name.chars ++ '=' :: quote :: inside) ∧
      ValuePiece.WritesAll quote a.value inside (quote :: rest)

/-- The text is the attributes and then `rest`. -/
def MarkupAttribute.WritesAll : List MarkupAttribute → List Char → List Char → Prop
  | [], input, rest => input = rest
  | a :: as, input, rest => ∃ mid, a.Writes input mid ∧ WritesAll as mid rest

namespace MarkupTree

mutual

/-- The text is the tree and then `rest`. -/
def Writes : MarkupTree → List Char → List Char → Prop
  | text chars _, input, rest => ∃ body, MarkupBody none chars body ∧ input = body ++ rest
  | enclosed n, input, rest => input = '{' :: '$' :: (n.chars ++ '}' :: rest)
  | literalSection chars _, input, rest =>
    input = "<![CDATA[".toList ++ (chars ++ ("]]>".toList ++ rest))
  | comment chars _ _, input, rest => input = "<!--".toList ++ (chars ++ ("-->".toList ++ rest))
  | instruction target _ chars _ _, input, rest =>
    ∃ blanks, (∀ c ∈ blanks, isBlank c) ∧ (chars ≠ [] → blanks ≠ []) ∧
      input = "<?".toList ++ (target.chars ++ (blanks ++ (chars ++ ("?>".toList ++ rest))))
  | emptyElement n attributes, input, rest =>
    ∃ tag, input = '<' :: (n.chars ++ tag) ∧
      MarkupAttribute.WritesAll attributes tag ('/' :: '>' :: rest)
  | element n attributes content, input, rest =>
    ∃ tag inside, input = '<' :: (n.chars ++ tag) ∧
      MarkupAttribute.WritesAll attributes tag ('>' :: inside) ∧
        WritesAll content inside ('<' :: '/' :: (n.chars ++ '>' :: rest))

/-- The text is the trees and then `rest`. -/
def WritesAll : List MarkupTree → List Char → List Char → Prop
  | [], input, rest => input = rest
  | t :: ts, input, rest => ∃ mid, Writes t input mid ∧ WritesAll ts mid rest

end

/-- The text serializes the tree. -/
def Serializes (t : MarkupTree) (text : List Char) : Prop := t.Writes text []

end MarkupTree

/-! ### Parsed trees -/

/-- The parsed expression is a variable; where it begins is left open. -/
def SimpleName.DenotesVariable (n : SimpleName) (module : ModuleId) (e : Expr) : Prop :=
  ∃ offset, e = .mk (.varRef ⟨none, n.text, none⟩) offset module

/-- The parsed part is the piece. -/
def ValuePiece.Denotes (module : ModuleId) : ValuePiece → AttributeValuePart Expr → Prop
  | text chars _, part => part = .text (String.ofList chars)
  | enclosed n, part => ∃ e, part = .enclosed e ∧ n.DenotesVariable module e

/-- Two lists agree one by one. -/
def OneByOne {α β : Type} (P : α → β → Prop) : List α → List β → Prop
  | [], bs => bs = []
  | a :: as, bs => ∃ b rest, bs = b :: rest ∧ P a b ∧ OneByOne P as rest

/-- The parsed attribute is the attribute. -/
def MarkupAttribute.Denotes (module : ModuleId) (a : MarkupAttribute) (parsed : DirAttribute Expr) :
    Prop :=
  ∃ value offset, parsed = ⟨⟨none, a.name.text, none⟩, value, offset⟩ ∧
    OneByOne (ValuePiece.Denotes module) a.value value

namespace MarkupTree

mutual

/-- The parsed part is the tree, where names of elements without a prefix are in `namespace?`. -/
def Denotes (namespace? : Option String) (module : ModuleId) : MarkupTree → DirContent Expr → Prop
  | text chars _, part => part = .text (String.ofList chars)
  | enclosed n, part => ∃ e, part = .enclosed e ∧ n.DenotesVariable module e
  | literalSection chars _, part => part = .literalSection (String.ofList chars)
  | comment chars _ _, part =>
    ∃ offset, part = .node (.mk (.dirComment (String.ofList chars)) offset module)
  | instruction target _ chars _ _, part =>
    ∃ offset, part = .node (.mk (.dirPi target.text (String.ofList chars)) offset module)
  | emptyElement n attributes, part => ∃ offset parsed, part = .node (.mk (.dirElement
      ⟨⟨none, n.text, namespace?⟩, parsed, [], [], true⟩) offset module) ∧
        OneByOne (MarkupAttribute.Denotes module) attributes parsed
  | element n attributes content, part => ∃ offset parsed parts, part = .node (.mk (.dirElement
      ⟨⟨none, n.text, namespace?⟩, parsed, [], parts, false⟩) offset module) ∧
        OneByOne (MarkupAttribute.Denotes module) attributes parsed ∧
          DenotesAll namespace? module content parts

/-- The parsed parts are the trees, one by one. -/
def DenotesAll (namespace? : Option String) (module : ModuleId) :
    List MarkupTree → List (DirContent Expr) → Prop
  | [], parts => parts = []
  | t :: ts, parts => ∃ part rest, parts = part :: rest ∧ Denotes namespace? module t part ∧
      DenotesAll namespace? module ts rest

end

end MarkupTree

/-! ### Levels -/

/-- The largest of some numbers. -/
def largest : List Nat → Nat
  | [] => 0
  | n :: ns => max n (largest ns)

/-- The number of constructs that count against the limit and are open in a piece at a time. -/
def ValuePiece.levels : ValuePiece → Nat
  | text .. => 0
  | enclosed _ => 1

/-- The largest number of constructs that are open in an attribute at a time. -/
def MarkupAttribute.levels (a : MarkupAttribute) : Nat :=
  largest (a.value.map ValuePiece.levels)

namespace MarkupTree

mutual

/-- The largest number of constructs that are open in a tree at a time: the elements around a place,
and the expression of an enclosed variable. -/
def levels : MarkupTree → Nat
  | enclosed _ => 1
  | emptyElement _ attributes => largest (attributes.map MarkupAttribute.levels) + 1
  | element _ attributes content =>
    max (largest (attributes.map MarkupAttribute.levels)) (levelsOfAll content) + 1
  | _ => 0

/-- The largest number of constructs that are open in a list of trees at a time. -/
def levelsOfAll : List MarkupTree → Nat
  | [] => 0
  | t :: ts => max t.levels (levelsOfAll ts)

end

end MarkupTree

end XQuerySyntax
