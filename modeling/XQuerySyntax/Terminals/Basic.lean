import XQuerySyntax.Lexing.Rule

/-!
How terminal rules are written down: a pattern, the states in which it may match, and the state
change. Several rules share a pattern and differ in states or state change; a production takes the
one that fits its place.
-/

namespace XQuerySyntax.Terminal

/-- A rule of the plain language. -/
def core (pattern : String) (states : StateSet) (next : Transition) : Rule :=
  ⟨pattern, states, next, .core⟩

/-- A rule of the full-text extension. -/
def fullText (pattern : String) (states : StateSet) (next : Transition) : Rule :=
  ⟨pattern, states, next, .fullText⟩

/-- A rule of the update extension. -/
def update (pattern : String) (states : StateSet) (next : Transition) : Rule :=
  ⟨pattern, states, next, .update⟩

/-- A rule of the scripting extension. -/
def scripting (pattern : String) (states : StateSet) (next : Transition) : Rule :=
  ⟨pattern, states, next, .scripting⟩

/-- Before an operand. -/
def expression : StateSet := .only .expression

/-- Behind an operand. -/
def operator : StateSet := .only .operator

/-- Before or behind an operand. -/
def code : StateSet := .code

/-- In a declaration. -/
def declaration : StateSet := .only .declare

/-- In a declaration, or before an operand. -/
def declarationOrExpression : StateSet := .ofList [.expression, .declare]

/-- In a namespace declaration or an import. -/
def namespaces : StateSet := .only .namespaceDeclaration

/-- In the declaration of a variable or a parameter. -/
def variableDeclaration : StateSet := .only .variableDeclaration

/-- In a sequence type. -/
def types : StateSet := .only .kindTest

/-- Before an operand, or in a sequence type. -/
def expressionOrTypes : StateSet := .ofList [.expression, .kindTest]

/-- Behind an item type. -/
def occurrences : StateSet := .only .occurrence

/-- In a thesaurus option. -/
def thesaurus : StateSet := .only .thesaurus

/-- Inside a tag. -/
def tags : StateSet := .only .tag

/-- In element content. -/
def content : StateSet := .only .content

/-- In an attribute value between double quotes. -/
def quotedValue : StateSet := .only .quotedValue

/-- In an attribute value between apostrophes. -/
def apostropheValue : StateSet := .only .apostropheValue

/-- In element content or an attribute value. -/
def contentOrAttribute : StateSet := .ofList [.content, .apostropheValue, .quotedValue]

/-- Everywhere but in markup. -/
def outsideMarkup : StateSet := .outsideMarkup

/-- An operand comes next. -/
def toExpression : Transition := .goto .expression

/-- An operand has been read. -/
def toOperator : Transition := .goto .operator

/-- A sequence type comes next. -/
def toTypes : Transition := .goto .kindTest

/-- The declaration of a variable comes next. -/
def toVariables : Transition := .goto .variableDeclaration

/-- A namespace declaration comes next. -/
def toNamespaces : Transition := .goto .namespaceDeclaration

/-- A declaration comes next. -/
def toDeclaration : Transition := .goto .declare

end XQuerySyntax.Terminal
