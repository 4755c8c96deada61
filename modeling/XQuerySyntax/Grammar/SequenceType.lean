import XQuerySyntax.Grammar.Name
import XQuerySyntax.Terminals.Module
import XQuerySyntax.Terminals.Expr

/-!
Sequence types, item types and kind tests. A type is read in a lexical state of its own, where the
names of kinds are keywords, and ends in another one, where the occurrence indicators belong to it;
the caller says in which state to go on.
-/

namespace XQuerySyntax.Grammar

open XQuerySyntax.Parser

/-- The name in an element or attribute test, or the star that stands for every name. -/
def elementTestName (isElement : Bool) : Parser ElementName := do
  if ← eat Terminal.kindWildcard then
    return .wildcard
  if ← eat Terminal.kindName then
    let offset ← start
    let lexical ← capturedQualifiedName 0
    if isElement then
      return .name (← elementName lexical offset)
    return .name (← plainName lexical offset)
  unexpected "a name or '*'"

/-- The arguments of an element or attribute test behind its parenthesis. -/
def elementTestArgs (isElement : Bool) : Parser (Option ElementName × Option ContentType) := do
  if ← eat Terminal.kindClose then
    return (none, none)
  let name ← elementTestName isElement
  let type ← whenEats Terminal.kindComma do
    expect Terminal.kindName
    let offset ← start
    let typeName ← elementName (← capturedQualifiedName 0) offset
    let nillable ← if isElement then eat Terminal.kindNillable else pure false
    return ContentType.mk typeName nillable
  expect Terminal.kindClose
  return (some name, type)

/-- The argument of a schema test behind its parenthesis. -/
def schemaTestName (isElement : Bool) : Parser QName := do
  expect Terminal.kindName
  let offset ← start
  let lexical ← capturedQualifiedName 0
  let name ← if isElement then elementName lexical offset else plainName lexical offset
  expect Terminal.kindClose
  return name

/-- The target of a processing-instruction test, written as a name or as a string. -/
def processingInstructionTarget : Parser (Option String) := do
  if ← eat Terminal.kindNcname then
    return some (← capturedName 0)
  if ← eat Terminal.kindString then
    let value ← capturedString 0
    return some (String.ofList (List.intercalate [' '] (Rule.words value.toList)))
  return none

/-- The document node of a document test may be tested for its element. -/
def documentTestRoot : Parser (Option KindTest) := do
  if ← eat Terminal.kindElement then
    let (name, type) ← elementTestArgs true
    return some (.element name type)
  if ← eat Terminal.kindSchemaElement then
    return some (.schemaElement (← schemaTestName true))
  return none

/-- A kind test through its closing parenthesis. -/
def kindTest : Parser (Option KindTest) := do
  if ← eat Terminal.kindDocument then
    let inner ← documentTestRoot
    expect Terminal.kindClose
    return some (.document inner)
  if ← eat Terminal.kindElement then
    let (name, type) ← elementTestArgs true
    return some (.element name type)
  if ← eat Terminal.kindAttribute then
    let (name, type) ← elementTestArgs false
    return some (.attribute name type)
  if ← eat Terminal.kindSchemaElement then
    return some (.schemaElement (← schemaTestName true))
  if ← eat Terminal.kindSchemaAttribute then
    return some (.schemaAttribute (← schemaTestName false))
  if ← eat Terminal.kindPi then
    let target ← processingInstructionTarget
    expect Terminal.kindClose
    return some (.processingInstruction target)
  let simple ← eatFirst [(Terminal.kindComment, KindTest.comment), (Terminal.kindText, .text),
    (Terminal.kindNamespaceNode, .namespaceNode), (Terminal.kindNode, .anyKind)]
  match simple with
  | none => return none
  | some test =>
    expect Terminal.kindClose
    return some test

/-- How often an item may occur, once unless an indicator follows. -/
def occurrence : Parser Occurrence := do
  let indicator ← eatFirst [(Terminal.occursOptional, Occurrence.zeroOrOne),
    (Terminal.occursZeroOrMore, .zeroOrMore), (Terminal.occursOneOrMore, .oneOrMore)]
  return indicator.getD .exactlyOne

/-- A sequence type, given a parser of item types. -/
def sequenceTypeOf (itemType : Parser ItemType) (resume : LexicalState) : Parser SequenceType := do
  goto .kindTest
  if ← eat Terminal.emptySequence then
    goto resume
    return .single .emptySequence
  let inner ← nested itemType
  goto .occurrence
  let times ← occurrence
  goto resume
  return .mk inner times

/-- The parameters and the result of a function test behind its parenthesis. -/
def functionTest (itemType : Parser ItemType) : Parser ItemType := do
  let params ←
    if ← eat Terminal.kindClose then pure []
    else do
      let params ← separatedBy Terminal.kindComma (sequenceTypeOf itemType .kindTest)
      expect Terminal.kindClose
      pure params
  expect Terminal.kindAs
  return .functionTest params (← sequenceTypeOf itemType .kindTest)

/-- An item type, with at most so many item types inside one another. -/
def itemTypeWithin : Nat → Parser ItemType
  | 0 => exhausted
  | n + 1 => do
    if ← eat Terminal.anyItem then
      return .item
    if ← eat Terminal.anyFunction then
      return .anyFunction
    if ← eat Terminal.functionTest then
      return ← functionTest (itemTypeWithin n)
    if ← eat Terminal.typeParenOpen then
      let inner ← itemTypeWithin n
      expect Terminal.kindClose
      return .parenthesized inner
    if let some test ← kindTest then
      return .kindTest test
    if ← eat Terminal.typeName then
      let offset ← start
      return .atomicOrUnion (← elementName (← capturedQualifiedName 0) offset)
    unexpected "a sequence type"

/-- An item type. -/
def itemType : Parser ItemType := do
  itemTypeWithin (← get).steps

/-- A sequence type, behind which the scanner goes on in the given state. -/
def sequenceType (resume : LexicalState) : Parser SequenceType :=
  sequenceTypeOf itemType resume

/-- The target of a cast. -/
def singleType : Parser SingleType := do
  goto .kindTest
  expect Terminal.typeName
  let offset ← start
  let typeName ← elementName (← capturedQualifiedName 0) offset
  goto .occurrence
  let optional ← eat Terminal.occursOptional
  goto .operator
  return ⟨typeName, optional⟩

/-- A variable with an optional type. -/
def typedVariable : Parser (QName × Option SequenceType) := do
  let name ← variableName
  let type ← whenEats Terminal.asType (sequenceType .operator)
  return (name, type)

end XQuerySyntax.Grammar
