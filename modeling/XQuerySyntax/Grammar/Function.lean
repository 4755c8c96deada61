import XQuerySyntax.Grammar.Update
import XQuerySyntax.Terminals.Module

/-!
The parts that declared and inline functions share: annotations, parameters and bodies.
-/

namespace XQuerySyntax

/-- Whether an annotation is the given one of the language. -/
def AnnotationDecl.isStandard (a : AnnotationDecl) (name : String) : Bool :=
  a.name.namespaceUri == some Namespaces.annotations && a.name.localPart == name

/-- Annotations that say who may see a declaration. -/
def AnnotationDecl.isVisibility (a : AnnotationDecl) : Bool :=
  a.isStandard "public" || a.isStandard "private"

/-- A declaration is public unless an annotation says otherwise. -/
def AnnotationDecl.isPublic (annotations : List AnnotationDecl) : Bool :=
  !annotations.any (·.isStandard "private")

namespace Grammar

open XQuerySyntax.Parser

/-- A constant of an annotation, if a number or a string comes next. -/
def annotationLiteral : Parser Literal := do
  if ← eat Terminal.annotationString then
    return .string (← capturedString 0)
  if ← eat Terminal.annotationNumber then
    return (← capturedNumber? 0).getD (.integer 0)
  unexpected "an annotation literal"

/-- The constants of an annotation, if there are any. -/
def annotationLiterals : Parser (List Literal) := do
  if ← eat Terminal.annotationOpen then
    let values ← separatedBy Terminal.annotationComma annotationLiteral
    expect Terminal.annotationClose
    return values
  return []

/-- An annotation, if one comes next, with the place where it stands. -/
def annotation? : Parser (Option (AnnotationDecl × Nat)) :=
  whenEats Terminal.annotationName do
    let offset ← start
    let name ← resolveName (← capturedQualifiedName 0) (some Namespaces.annotations) offset
    return (⟨name, ← annotationLiterals⟩, offset)

/-- Adds the next annotation, if there is one. At most one of them may be about visibility. -/
def addAnnotation (annotations : List AnnotationDecl) :
    Parser (List AnnotationDecl ⊕ List AnnotationDecl) := do
  match ← annotation? with
  | none => return .inr annotations
  | some (a, offset) =>
    if a.isVisibility && annotations.any (·.isVisibility) then
      record .duplicateAnnotations offset "only one %public or %private annotation is allowed"
    return .inl (annotations ++ [a])

/-- All annotations in front of a declaration or an inline function. -/
def annotationList : Parser (List AnnotationDecl) :=
  iterate addAnnotation []

/-- An optional type in a declaration. -/
def declaredType : Parser (Option SequenceType) :=
  whenEats Terminal.variableAs (sequenceType .variableDeclaration)

/-- A parameter, whose name must differ from those before it. -/
def param (params : List Param) : Parser Param := do
  expect Terminal.variableName
  let offset ← start
  let name ← plainName (← capturedQualifiedName 0) offset
  if params.any fun p => p.name.expanded == name.expanded then
    record .duplicateParameter offset ("parameter $" ++ name.text ++ " appears more than once")
  return ⟨name, ← declaredType⟩

/-- Adds the next parameter and says whether another one follows. -/
def addParam (params : List Param) : Parser (List Param ⊕ List Param) := do
  let p ← param params
  if ← eat Terminal.paramComma then
    return .inl (params ++ [p])
  return .inr (params ++ [p])

/-- Parameters, behind the opening parenthesis and through the closing one. -/
def paramList : Parser (List Param) := do
  if ← eat Terminal.paramsClose then
    return []
  let params ← iterate addParam []
  expect Terminal.paramsClose
  return params

variable (single : Parser Expr)

/-- The body of a function, behind its opening brace and through the closing one: statements, or an
expression. -/
def functionBody (statements : Bool) (offset : Nat) : Parser Expr :=
  if statements then blockBody single offset else exprUpToBrace single offset

/-- A function without a name. -/
def inlineFunction : Parser Expr := do
  let offset ← nextOffset
  let annotations ← annotationList
  expect Terminal.inlineFunction
  expect Terminal.paramsOpen
  let params ← paramList
  let returnType ← declaredType
  expect Terminal.bodyOpen
  let body ← functionBody single false (← start)
  node (.inlineFunction annotations params returnType body) offset

end Grammar

end XQuerySyntax
