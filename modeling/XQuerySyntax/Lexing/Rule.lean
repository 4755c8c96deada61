import XQuerySyntax.Config
import XQuerySyntax.Lexing.State
import XQuerySyntax.Text.CharClass

/-!
Terminal rules. A rule is a pattern, the lexical states in which it may match, and the state change
that follows. A pattern is a compact text:

* a blank stands for optional space between tokens, which is required between two words;
* `%N`, `%Q`, `%S` and `%D` stand for a name, a qualified name, a string literal and a number;
* `%^` marks the point that the scanner goes back to when the rest of the pattern has matched;
* `%%` stands for a percent sign, and any other character for itself.
-/

namespace XQuerySyntax

/-- The lexemes that a pattern captures. -/
inductive Placeholder where
  | name
  | qualifiedName
  | string
  | number
  deriving DecidableEq, Repr, Inhabited

/-- Parts of a pattern. -/
inductive PatternItem where
  | char (c : Char)
  | percent
  | gap
  | capture (kind : Placeholder)
  | anchor
  /-- A malformed part, which matches nothing. -/
  | never
  deriving DecidableEq, Repr, Inhabited

namespace PatternItem

/-- The part that a letter behind a percent sign stands for. -/
def ofEscape (c : Char) : PatternItem :=
  if c = 'N' then .capture .name
  else if c = 'Q' then .capture .qualifiedName
  else if c = 'S' then .capture .string
  else if c = 'D' then .capture .number
  else if c = '^' then .anchor
  else if c = '%' then .percent
  else .never

/-- Splits a pattern into its parts. -/
def ofChars : List Char → List PatternItem
  | [] => []
  | ['%'] => [.never]
  | '%' :: c :: cs => ofEscape c :: ofChars cs
  | c :: cs => (if c = ' ' then .gap else .char c) :: ofChars cs

/-- The units of a pattern text: each byte of its UTF-8 form stands for the character of that
number. -/
def units (pattern : String) : List Char :=
  pattern.toList.flatMap fun c => (String.utf8EncodeChar c).map fun b => Char.ofNat b.toNat

/-- The parts of a pattern text. -/
def ofText (pattern : String) : List PatternItem :=
  ofChars (units pattern)

/-- Letters, digits and the underscore of ASCII. -/
def isWordChar (c : Char) : Bool :=
  c.isAlphanum || c == '_'

/-- Whether what follows begins with a word, anchors aside. -/
def startsWord : List PatternItem → Bool
  | .anchor :: items => startsWord items
  | .capture .string :: _ => false
  | .capture _ :: _ => true
  | .char c :: _ => isWordChar c
  | _ => false

/-- Whether what follows goes on with the same word. -/
def continuesWord : List PatternItem → Bool
  | .char c :: _ => isWordChar c || c == '-'
  | _ => false

end PatternItem

/-- A terminal rule. -/
structure Rule where
  pattern : String
  states : StateSet
  next : Transition
  extension : Extension

namespace Rule

instance : Inhabited Rule := ⟨⟨"", .ofList [], .stay, .core⟩⟩

/-- The parts of the pattern. -/
def items (r : Rule) : List PatternItem := PatternItem.ofText r.pattern

/-- The words that stand for the parts of a pattern in messages. -/
def describeChars : List Char → List Char
  | '%' :: c :: cs =>
    (if c = 'N' then " name ".toList
     else if c = 'Q' then " QName ".toList
     else if c = 'S' then " string literal ".toList
     else if c = 'D' then " number ".toList
     else if c = '%' then ['%']
     else []) ++ describeChars cs
  | ['%'] => []
  | c :: cs => c :: describeChars cs
  | [] => []

/-- The words of a text, which spaces separate. -/
def words (text : List Char) : List (List Char) :=
  let (word, rest) := text.foldr
    (fun c (acc : List Char × List (List Char)) =>
      if Text.isSpace c then ([], if acc.1.isEmpty then acc.2 else acc.1 :: acc.2)
      else (c :: acc.1, acc.2)) ([], [])
  if word.isEmpty then rest else word :: rest

/-- The rule in words, for messages. -/
def describe (r : Rule) : String :=
  String.ofList (List.intercalate [' '] (words (describeChars r.pattern.toList)))

end Rule

end XQuerySyntax
