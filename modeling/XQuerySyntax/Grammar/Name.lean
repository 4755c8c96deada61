import XQuerySyntax.Grammar.Parser
import XQuerySyntax.Terminals.Expr

/-!
Names. A qualifier is replaced by its namespace where the name stands; one that is not bound is
recorded, and the name stays without a namespace. Names without a qualifier take the default
namespace of their kind, if it has one.
-/

namespace XQuerySyntax.Grammar

open XQuerySyntax.Parser

/-- The namespace of a qualifier; one that is not bound is recorded. -/
def resolveQualifier (qualifier : String) (offset : Nat) : Parser (Option String) := do
  let uri ← consult (·.resolve? qualifier)
  if uri.isNone then
    record .unknownPrefix offset ("namespace prefix '" ++ qualifier ++ "' is not declared")
  return uri

/-- Resolves a name; without a qualifier it takes the default namespace. -/
def resolveName (name : LexicalName) (default : Option String) (offset : Nat) : Parser QName := do
  match name.qualifier with
  | some q => return ⟨some q, name.localPart, ← resolveQualifier q offset⟩
  | none => return ⟨none, name.localPart, default⟩

/-- The name of an element or a type. -/
def elementName (name : LexicalName) (offset : Nat) : Parser QName := do
  resolveName name (← consult (·.elementNamespace?)) offset

/-- The name of a function. -/
def functionName (name : LexicalName) (offset : Nat) : Parser QName := do
  resolveName name (← consult (·.functionNamespace?)) offset

/-- The name of a variable, an attribute or anything else without a default namespace. -/
def plainName (name : LexicalName) (offset : Nat) : Parser QName :=
  resolveName name none offset

/-- A variable with its dollar sign. -/
def variableName : Parser QName := do
  expect Terminal.variableReference
  let offset ← start
  plainName (← capturedQualifiedName 0) offset

/-- A name or a wildcard, with the default namespace for a name without a qualifier. -/
def nameTest (default : Option String) : Parser (Option NameTest) := do
  if ← eat Terminal.wildcardPrefix then
    return some (.localPart (← capturedName 0))
  if ← eat Terminal.wildcardLocal then
    let offset ← start
    let qualifier ← capturedName 0
    return some (.inNamespace qualifier (← resolveQualifier qualifier offset))
  if ← eat Terminal.wildcard then
    return some .any
  if ← eat Terminal.nameTest then
    let offset ← start
    return some (.name (← resolveName (← capturedQualifiedName 0) default offset))
  return none

/-- Prefix and namespace of a binding in the prolog or a start tag: two prefixes and two namespaces
are reserved. -/
def checkBinding (qualifier uri : String) (offset : Nat) : Parser Unit := do
  if qualifier == "xml" || qualifier == "xmlns" then
    record .reservedNamespace offset ("the prefix '" ++ qualifier ++ "' cannot be redeclared")
  else if uri == Namespaces.xml || uri == Namespaces.xmlns then
    record .reservedNamespace offset
      ("the namespace '" ++ uri ++ "' cannot be bound to '" ++ qualifier ++ "'")

/-- A reserved namespace cannot be a default one. -/
def checkDefaultNamespace (uri : String) (offset : Nat) : Parser Unit := do
  if uri == Namespaces.xml || uri == Namespaces.xmlns then
    record .reservedNamespace offset ("'" ++ uri ++ "' cannot be a default namespace")

end XQuerySyntax.Grammar
