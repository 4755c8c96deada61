import XQuerySyntax.Grammar.MatchOption
import XQuerySyntax.Terminals.Module

/-!
Settings of the prolog: how space, order and namespaces are treated, decimal formats and options. A
setting that may be given once keeps the last value; each repetition is recorded.
-/

namespace XQuerySyntax.Grammar

open XQuerySyntax.Parser

/-- Marks a setting as given; a repetition is recorded. -/
def claim (setter : Setter) (code : ErrorCode) (offset : Nat) : Parser Unit := do
  if !(← amendGet (·.claim setter)) then
    record code offset (setter.text ++ " is declared more than once")

/-- Marks a qualifier as bound by the prolog; a repetition is recorded. -/
def claimQualifier (qualifier : String) (offset : Nat) : Parser Unit := do
  if (← get).declaredPrefixes.contains qualifier then
    record .duplicateNamespacePrefix offset
      ("namespace prefix '" ++ qualifier ++ "' is declared more than once")
  else
    modify fun s => { s with declaredPrefixes := qualifier :: s.declaredPrefixes }

/-- One of two words: the value of the first if it comes next, else the second must follow. -/
def eitherWord {α : Type} (first : Rule × α) (second : Rule × α) : Parser α := do
  if ← eat first.1 then return first.2
  expect second.1
  return second.2

/-- How boundary whitespace is treated. -/
def boundarySpaceDecl (offset : Nat) : Parser DeclarationKind := do
  let policy ← eitherWord (Terminal.preserveMode, BoundarySpace.preserve) (Terminal.stripMode, .strip)
  claim .boundarySpace .duplicateBoundarySpace offset
  amend fun c => { c with boundarySpace := policy }
  return .boundarySpace policy

/-- The default collation, behind its match. -/
def defaultCollationDecl (offset : Nat) : Parser DeclarationKind := do
  let uri ← capturedString 0
  claim .defaultCollation .duplicateDefaultCollation offset
  amend fun c => { c with defaultCollation := some uri }
  return .defaultCollation uri

/-- The base of relative locations, behind its match. -/
def baseUriDecl (offset : Nat) : Parser DeclarationKind := do
  let uri ← capturedString 0
  claim .baseUri .duplicateBaseUri offset
  amend fun c => { c with baseUri := some uri }
  return .baseUri uri

/-- Whether constructed nodes keep their types. -/
def constructionDecl (offset : Nat) : Parser DeclarationKind := do
  let mode ← eitherWord (Terminal.preserveMode, ConstructionMode.preserve)
    (Terminal.stripMode, .strip)
  claim .construction .duplicateConstruction offset
  amend fun c => { c with construction := mode }
  return .construction mode

/-- Whether document order matters. -/
def orderingDecl (offset : Nat) : Parser DeclarationKind := do
  let mode ← eitherWord (Terminal.orderedMode, OrderingMode.ordered)
    (Terminal.unorderedMode, .unordered)
  claim .ordering .duplicateOrdering offset
  amend fun c => { c with ordering := mode }
  return .ordering mode

/-- Where the empty sequence stands in an ordering. -/
def emptyOrderDecl (offset : Nat) : Parser DeclarationKind := do
  let order ← eitherWord (Terminal.greatest, EmptyOrder.greatest) (Terminal.least, .least)
  claim .emptyOrder .duplicateEmptyOrder offset
  amend fun c => { c with emptyOrder := order }
  return .emptyOrder order

/-- Which namespaces copied elements keep and take over. -/
def copyNamespacesDecl (offset : Nat) : Parser DeclarationKind := do
  let preserve ← eitherWord (Terminal.preserveMode, true) (Terminal.noPreserve, false)
  expect Terminal.declareComma
  let inherit ← eitherWord (Terminal.inherit, true) (Terminal.noInherit, false)
  claim .copyNamespaces .duplicateCopyNamespaces offset
  amend fun c => { c with copyNamespacesPreserve := preserve, copyNamespacesInherit := inherit }
  return .copyNamespaces preserve inherit

/-- How updated trees are validated. -/
def revalidationDecl (offset : Nat) : Parser DeclarationKind := do
  let mode ←
    if ← eat Terminal.strictMode then pure ValidationMode.strict
    else eitherWord (Terminal.laxMode, .lax) (Terminal.skipMode, .skip)
  claim .revalidation .duplicateRevalidation offset
  amend fun c => { c with revalidation := some mode }
  return .revalidation mode

/-- Adds the next property of a decimal format, if there is one. A repeated property is recorded
and left out; a value of the wrong length is recorded and kept. -/
def addFormatProperty (format : DecimalFormat) : Parser (DecimalFormat ⊕ DecimalFormat) := do
  if !(← eat Terminal.decimalFormatProperty) then
    return .inr format
  let offset ← start
  let name ← capturedName 0
  let value ← capturedString 1
  match DecimalFormatProperty.ofName? name with
  | none => fatal .malformed offset ("unknown decimal-format property '" ++ name ++ "'")
  | some property =>
    if format.any fun p => p.1 == property then
      record .duplicateDecimalFormatProperty offset
        ("decimal-format property '" ++ name ++ "' is given more than once")
      return .inl format
    if property.isSingleChar && value.toList.length != 1 then
      record .invalidDecimalFormatValue offset
        ("decimal-format property '" ++ name ++ "' must be a single character")
    return .inl (format ++ [(property, value)])

/-- A decimal format, the default one if it has no name. -/
def decimalFormatDecl (name : Option QName) (offset : Nat) : Parser DeclarationKind := do
  let format ← iterate addFormatProperty []
  if !(← amendGet (·.addDecimalFormat (name.map QName.expanded) format)) then
    let label := (name.map QName.text).getD "default"
    record .duplicateDecimalFormat offset
      ("decimal format '" ++ label ++ "' is declared more than once")
  return .decimalFormat name format

/-- A default namespace, behind its match. -/
def defaultNamespaceDecl (kind : DefaultNamespaceKind) (offset : Nat) : Parser DeclarationKind := do
  let uri ← capturedString 0
  let setter : Setter :=
    match kind with
    | .element => .defaultElementNamespace
    | .function => .defaultFunctionNamespace
  claim setter .duplicateDefaultNamespace offset
  checkDefaultNamespace uri offset
  match kind with
  | .element => amend (·.bind "" uri)
  | .function => amend fun c => { c with functionNamespace := uri }
  return .defaultNamespace kind uri

/-- A namespace bound to a qualifier. -/
def namespaceDecl (offset : Nat) : Parser DeclarationKind := do
  expect Terminal.namespaceBinding
  let qualifier ← capturedName 0
  let uri ← capturedString 1
  checkBinding qualifier uri offset
  claimQualifier qualifier offset
  amend (·.bind qualifier uri)
  return .namespaceDecl qualifier uri

/-- An option, behind its match. -/
def optionDecl (offset : Nat) : Parser DeclarationKind := do
  let lexical ← capturedQualifiedName 0
  let value ← capturedString 1
  let name ← plainName lexical offset
  amend (·.setOption name.expanded value)
  return .option name value

/-- Match options for all full-text searches, at least one. -/
def ftOptionDecl : Parser DeclarationKind := do
  let options ← matchOptions
  if options.isEmpty then
    unexpected "'using'"
  amend fun c => { c with ftOptions := some options }
  return .ftOption options

/-- A setting, if one comes next. -/
def setterDecl (offset : Nat) : Parser (Option DeclarationKind) := do
  if ← eat Terminal.declareBoundarySpace then
    return some (← boundarySpaceDecl offset)
  if ← eat Terminal.declareDefaultCollation then
    return some (← defaultCollationDecl offset)
  if ← eat Terminal.declareBaseUri then
    return some (← baseUriDecl offset)
  if ← eat Terminal.declareConstruction then
    return some (← constructionDecl offset)
  if ← eat Terminal.declareOrdering then
    return some (← orderingDecl offset)
  if ← eat Terminal.declareEmptyOrder then
    return some (← emptyOrderDecl offset)
  if ← eat Terminal.declareCopyNamespaces then
    return some (← copyNamespacesDecl offset)
  if ← eat Terminal.declareDefaultDecimalFormat then
    return some (← decimalFormatDecl none offset)
  if ← eat Terminal.declareDecimalFormat then
    let name ← plainName (← capturedQualifiedName 0) offset
    return some (← decimalFormatDecl (some name) offset)
  if ← eat Terminal.declareDefaultElementNs then
    return some (← defaultNamespaceDecl .element offset)
  if ← eat Terminal.declareDefaultFunctionNs then
    return some (← defaultNamespaceDecl .function offset)
  if ← eat Terminal.declareNamespace then
    return some (← namespaceDecl offset)
  return none

end XQuerySyntax.Grammar
