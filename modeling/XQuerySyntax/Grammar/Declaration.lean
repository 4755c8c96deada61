import XQuerySyntax.Grammar.Expr
import XQuerySyntax.Grammar.Setter

/-!
Declarations of variables, functions and the context item, and the imports of schemas and modules.
Declarations enter the static context when they end, so a name is in it only behind its declaration;
a second declaration of a name is recorded and leaves the first one in the context.
-/

namespace XQuerySyntax.Grammar

open XQuerySyntax.Parser

/-- What is declared by a library module has to be in the namespace of the module. -/
def checkLibraryNamespace (name : QName) (what : String) (offset : Nat) : Parser Unit := do
  match (← get).libraryNamespace with
  | none => return
  | some uri =>
    if name.namespaceUri ≠ some uri then
      record .componentOutsideModuleNamespace offset
        (what ++ " '" ++ name.text ++ "' is not in the library module namespace '" ++ uri ++ "'")

/-- The value of a variable or of the context item, and whether it is given from outside. A value
given from outside may have a default. -/
def initialValue : Parser (Option Expr × Bool) := do
  if ← eat Terminal.variableAssign then
    return (some (← exprSingle), false)
  if ← eat Terminal.externalMark then
    return (← whenEats Terminal.variableAssign exprSingle, true)
  unexpected "':=' or 'external'"

/-- A global variable. -/
def variableDecl (annotations : List AnnotationDecl) (offset : Nat) : Parser VariableDecl := do
  expect Terminal.variableName
  let place ← start
  let name ← plainName (← capturedQualifiedName 0) place
  checkLibraryNamespace name "variable" place
  let typeDecl ← declaredType
  let (value, isExternal) ← initialValue
  let isPublic := AnnotationDecl.isPublic annotations
  -- The value has been read by now, so its errors come first.
  if !(← amendGet (·.declareVariable ⟨name, typeDecl, isExternal, isPublic⟩)) then
    record .duplicateVariable offset ("variable $" ++ name.text ++ " is declared more than once")
  return { annotations, name, typeDecl, value, isExternal }

/-- The context item. -/
def contextItemDecl (offset : Nat) : Parser DeclarationKind := do
  let itemType ← declaredType
  let (value, isExternal) ← initialValue
  claim .contextItem .duplicateContextItem offset
  amend fun c => { c with contextItemType := itemType }
  return .contextItem itemType value isExternal

/-- The body of a declared function; an external one has none. -/
def declaredBody (kind : FunctionKind) : Parser (Option Expr) := do
  if ← eat Terminal.externalMark then
    return none
  expect Terminal.bodyOpen
  return some (← functionBody exprSingle (kind == .sequential) (← start))

/-- A function, behind its name. -/
def functionDecl (annotations : List AnnotationDecl) (kind : FunctionKind) (offset : Nat) :
    Parser FunctionDecl := do
  let place ← start
  let name ← functionName (← capturedQualifiedName 0) place
  if let some uri := name.namespaceUri then
    if Namespaces.isReservedForFunctions uri then
      record .reservedFunctionNamespace place
        ("function " ++ name.text ++ " is declared in the reserved namespace '" ++ uri ++ "'")
  checkLibraryNamespace name "function" place
  expect Terminal.paramsOpen
  let params ← paramList
  let returnType ← declaredType
  let body ← declaredBody kind
  let signature : FunctionSignature := {
    name
    params := params.map Param.typeDecl
    returnType
    kind
    isExternal := body.isNone
    isPublic := AnnotationDecl.isPublic annotations }
  if !(← amendGet (·.declareFunction signature)) then
    record .duplicateFunction offset
      ("function " ++ name.text ++ "#" ++ toString params.length ++ " is declared more than once")
  return { annotations, kind, name, params, returnType, body }

/-- Where an imported schema or module may be found. -/
def locationHints : Parser (List String) := do
  if ← eat Terminal.locationHint then
    let first ← capturedString 0
    return first :: (← many (whenEats Terminal.moreLocations (capturedString 0)))
  return []

/-- Binds the qualifier of an import, if it has one. -/
def bindImport (qualifier : Option String) (uri : String) (offset : Nat) : Parser Unit := do
  if let some q := qualifier then
    checkBinding q uri offset
    claimQualifier q offset
    amend (·.bind q uri)

/-- The import of a schema. -/
def schemaImport (offset : Nat) : Parser DeclarationKind := do
  let qualifier ← whenEats Terminal.namespacePrefixed (capturedName 0)
  let isDefault ← if qualifier.isNone then eat Terminal.importDefaultElement else pure false
  expect Terminal.namespaceUri
  let uri ← capturedString 0
  let locations ← locationHints
  bindImport qualifier uri offset
  if isDefault then
    claim .defaultElementNamespace .duplicateDefaultNamespace offset
    amend (·.bind "" uri)
  if !(← amendGet (·.addSchemaImport uri locations)) then
    record .duplicateSchemaImport offset ("schema '" ++ uri ++ "' is imported more than once")
  return .schemaImport ⟨qualifier, isDefault, uri, locations⟩

/-- The import of a module, and whether its namespace is imported for the first time. -/
def moduleImport (offset : Nat) : Parser (ModuleImport × Bool) := do
  let qualifier ← whenEats Terminal.namespacePrefixed (capturedName 0)
  expect Terminal.namespaceUri
  let uri ← capturedString 0
  let locations ← locationHints
  if uri = "" then
    record .emptyModuleNamespace offset "the target namespace of a module import must not be empty"
  bindImport qualifier uri offset
  let isNew ← amendGet (·.addModuleImport uri locations)
  if !isNew then
    record .duplicateModuleImport offset ("module '" ++ uri ++ "' is imported more than once")
  return (⟨qualifier, uri, locations⟩, isNew)

/-- The two parts of a prolog: everything that sets up the module comes before the declarations of
variables, functions, options and the context item. -/
inductive Section where
  | setup
  | declarations
  deriving DecidableEq, Repr, Inhabited

/-- What a function may do. -/
def functionKind : Parser FunctionKind := do
  let kind ← eatFirst [(Terminal.declareUpdating, FunctionKind.updating),
    (Terminal.declareSequential, .sequential), (Terminal.declareSimple, .simple)]
  return kind.getD .simple

/-- A variable or a function with its annotations; nothing if the word that opens a declaration was
a name. -/
def componentDecl (offset : Nat) : Parser (Option DeclarationKind) := do
  let annotations ← annotationList
  let kind ← functionKind
  if ← eat Terminal.declareVariable then
    return some (.variableDecl (← variableDecl annotations offset))
  if ← eat Terminal.declareFunction then
    return some (.functionDecl (← functionDecl annotations kind offset))
  -- Behind an annotation or a kind, the word that opened this was no name.
  if !annotations.isEmpty || kind != .simple then
    unexpected "'variable' or 'function'"
  return none

/-- A declaration behind the word that opens it; nothing if that word was a name. -/
def declared (offset : Nat) : Parser (Option (DeclarationKind × Section)) := do
  if let some kind ← setterDecl offset then
    return some (kind, .setup)
  if ← eat Terminal.declareOption then
    return some (← optionDecl offset, .declarations)
  if ← eat Terminal.declareFtOption then
    return some (← ftOptionDecl, .setup)
  if ← eat Terminal.declareRevalidation then
    return some (← revalidationDecl offset, .setup)
  if ← eat Terminal.declareContextItem then
    return some (← contextItemDecl offset, .declarations)
  match ← componentDecl offset with
  | some kind => return some (kind, .declarations)
  | none => return none

/-- A declaration without the semicolon at its end. -/
structure DeclarationHead where
  decl : Declaration
  part : Section
  /-- The module that has to be loaded for it. -/
  pending : Option ModuleImport

/-- A declaration, if one comes next, without the semicolon at its end. A body that begins with the
word that opens declarations is left alone. -/
def declarationHead : Parser (Option DeclarationHead) := do
  let place ← mark
  if ← eat Terminal.importSchema then
    let offset ← start
    return some ⟨⟨← schemaImport offset, offset⟩, .setup, none⟩
  if ← eat Terminal.importModule then
    let offset ← start
    let (library, isNew) ← moduleImport offset
    return some ⟨⟨.moduleImport library, offset⟩, .setup, if isNew then some library else none⟩
  if (← eatFirst [(Terminal.declareWord, ()), (Terminal.declareAnnotated, ())]).isNone then
    return none
  let offset ← start
  match ← declared offset with
  | some (kind, part) => return some ⟨⟨kind, offset⟩, part, none⟩
  | none =>
    -- The word was a name after all, and the body begins with it.
    restore place
    return none

end XQuerySyntax.Grammar
