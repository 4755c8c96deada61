import XQuerySyntax.Grammar.Declaration

/-!
Modules, and how they are parsed. A module may import others; where they come from is left to an
importer with a state of its own. Without an importer, imports are kept in the tree and not loaded.
-/

namespace XQuerySyntax

/-- A parsed module with its static context and the diagnostics recorded on the way. -/
structure ParsedModule where
  id : ModuleId
  module : Module
  context : StaticContext
  diagnostics : List Diagnostic

namespace ParsedModule

/-- The number of errors. -/
def errorCount (m : ParsedModule) : Nat := Diagnostic.errorCount m.diagnostics

/-- Whether there are no errors. -/
def isOk (m : ParsedModule) : Bool := m.errorCount == 0

/-- The namespace of a library module. -/
def targetNamespace? (m : ParsedModule) : Option String := m.module.targetNamespace?

end ParsedModule

/-- Why a module cannot be had from a location. -/
inductive ImportError where
  /-- The module is being parsed already; the chain of modules leads back to it. -/
  | cycle (chain : List String)
  /-- The text cannot be read. -/
  | unreadable (location reason : String)
  /-- The text is no library module. -/
  | broken (location : String) (error : ParseError)
  /-- Too many modules import one another. -/
  | tooDeep (limit : Nat)
  deriving DecidableEq, Repr, Inhabited

namespace ImportError

/-- The error in words. -/
def message : ImportError → String
  | cycle chain => "cyclic module import: " ++ String.intercalate " -> " chain
  | unreadable location reason => "cannot read module '" ++ location ++ "': " ++ reason
  | broken location error => "module '" ++ location ++ "' failed to parse: " ++ error.describe
  | tooDeep limit => "maximum module import depth (" ++ toString limit ++ ") exceeded"

end ImportError

/-- Where imported modules come from. -/
structure Importer (σ : Type) where
  /-- The locations of a namespace, given the hints of the import and the importing module. -/
  locate : (uri : String) → (hints : List String) → (importer : ModuleId) → σ → List String
  /-- The module at a location. -/
  load : (location : String) → σ → Except ImportError ParsedModule × σ

/-- Parsers of modules, with the state of an importer. -/
abbrev ModuleParser (σ : Type) := EStateM Stop (ParserState × σ)

namespace Grammar

open XQuerySyntax.Parser

variable {σ : Type}

/-- A parser that leaves the importer alone. -/
def lift {α : Type} (p : Parser α) : ModuleParser σ α := fun (s, imports) =>
  match p s with
  | .ok a s' => .ok a (s', imports)
  | .error e s' => .error e (s', imports)

/-- Records a module that cannot be imported. A cycle and a module that does not parse stop the
importing module too. -/
def importFailed (error : ImportError) (offset : Nat) : Parser Unit :=
  match error with
  | .cycle _ => fatal .cyclicImport offset error.message
  | .broken location e =>
    fatal e.diagnostic.code offset
      ("in imported module '" ++ location ++ "': " ++ e.diagnostic.describe)
  | _ => record .moduleNotFound offset error.message

/-- Takes over the public declarations of an imported module; clashes are recorded. -/
def takeOver (loaded : ParsedModule) (location uri : String) (offset : Nat) : Parser Unit := do
  if loaded.targetNamespace? ≠ some uri then
    record .moduleNotFound offset
      ("module at '" ++ location ++ "' does not have the target namespace '" ++ uri ++ "'")
    return
  let clashes ← amendGet (·.importSignatures loaded.context uri)
  for name in clashes do
    let (code, what) :=
      if (loaded.context.findVariable? name.expanded).isSome then
        (ErrorCode.duplicateVariable, "variable")
      else (ErrorCode.duplicateFunction, "function")
    record code offset
      ("imported " ++ what ++ " " ++ name.text ++ " clashes with an existing declaration")

/-- Loads the module at a location and takes over its declarations. -/
def loadFrom (importer : Importer σ) (uri : String) (offset : Nat) (location : String) :
    ModuleParser σ Unit := fun (s, imports) =>
  match importer.load location imports with
  | (.ok loaded, imports') => lift (takeOver loaded location uri offset) (s, imports')
  | (.error error, imports') => lift (importFailed error offset) (s, imports')

/-- Loads an imported module from all its locations. -/
def loadImport (importer : Option (Importer σ)) (library : ModuleImport) (offset : Nat) :
    ModuleParser σ Unit := do
  match importer with
  | none => return
  | some importer =>
    let (s, imports) ← get
    let locations := importer.locate library.targetNamespace library.locations s.module imports
    if locations.isEmpty then
      lift (record .moduleNotFound offset
        ("no module found for namespace '" ++ library.targetNamespace ++ "'"))
    for location in locations do
      loadFrom importer library.targetNamespace offset location

/-- The declarations of a prolog, within a number of steps. Once a declaration of the second part
has been read, those of the first part are recorded as errors. -/
def declarationsWithin (importer : Option (Importer σ)) : Nat → Section →
    ModuleParser σ (List Declaration)
  | 0, _ => lift exhausted
  | n + 1, part => do
    match ← lift declarationHead with
    | none => return []
    | some head =>
      -- Loading comes before the semicolon, so its errors come before a missing semicolon.
      if let some library := head.pending then
        loadImport importer library head.decl.offset
      lift (expect Terminal.semicolon)
      if part = .declarations ∧ head.part = .setup then
        lift (record .malformed head.decl.offset
          ("setters, namespace declarations and imports must precede " ++
            "variable, function, option and context item declarations"))
      let rest ← declarationsWithin importer n
        (if head.part = .declarations then .declarations else part)
      return head.decl :: rest

/-- A prolog behind its version declaration. -/
def prolog (importer : Option (Importer σ)) (version : Option VersionDecl) :
    ModuleParser σ Prolog := do
  let (s, _) ← get
  return ⟨version, ← declarationsWithin importer s.steps .setup⟩

/-- The versions of the language that are understood. -/
def supportedVersions : List String := ["1.0", "1.1", "3.0", "3.1"]

/-- Names of encodings: a letter, then letters, digits and a few punctuation marks of ASCII. -/
def isEncodingName : List Char → Bool
  | [] => false
  | c :: cs => c.isAlpha && cs.all fun d => d.isAlphanum || d == '.' || d == '_' || d == '-'

/-- Checks version and encoding, and reads the end of their declaration. -/
def checkVersion (decl : VersionDecl) : Parser VersionDecl := do
  if let some version := decl.version then
    if !supportedVersions.contains version then
      record .unsupportedVersion decl.offset
        ("XQuery version '" ++ version ++ "' is not supported")
  if let some encoding := decl.encoding then
    if isEncodingName encoding.toList then
      warn .encodingIgnored decl.offset
        ("encoding '" ++ encoding ++ "' ignored: the module text is already decoded")
    else
      record .invalidEncoding decl.offset ("'" ++ encoding ++ "' is not a valid encoding name")
  expect Terminal.semicolon
  return decl

/-- The version declaration, if there is one. -/
def versionDecl : Parser (Option VersionDecl) := do
  if ← eat Terminal.versionDecl then
    let offset ← start
    let version ← capturedString 0
    let encoding ← whenEats Terminal.versionEncoding (capturedString 0)
    return some (← checkVersion ⟨some version, encoding, offset⟩)
  if ← eat Terminal.encodingDecl then
    let offset ← start
    return some (← checkVersion ⟨none, some (← capturedString 0), offset⟩)
  return none

/-- A main module behind its version declaration. -/
def mainModule (importer : Option (Importer σ)) (version : Option VersionDecl) :
    ModuleParser σ Module := do
  let declarations ← prolog importer version
  let body ← lift (queryBody exprSingle)
  lift expectEnd
  return .main declarations body

/-- The declaration of a library module. A module without a location is known by its namespace. -/
def libraryHeader (hasLocation : Bool) : Parser (String × String) := do
  expect Terminal.moduleDecl
  let offset ← start
  expect Terminal.namespaceBinding
  let qualifier ← capturedName 0
  let uri ← capturedString 1
  if uri = "" then
    record .emptyModuleNamespace offset
      "the target namespace of a library module must not be empty"
  checkBinding qualifier uri offset
  amend (·.bind qualifier uri)
  modify fun s => { s with
    declaredPrefixes := qualifier :: s.declaredPrefixes
    module := if !hasLocation && uri != "" then ⟨uri⟩ else s.module
    libraryNamespace := some uri }
  expect Terminal.semicolon
  return (qualifier, uri)

/-- A library module behind its version declaration. -/
def libraryModule (importer : Option (Importer σ)) (hasLocation : Bool)
    (version : Option VersionDecl) : ModuleParser σ Module := do
  let (qualifier, uri) ← lift (libraryHeader hasLocation)
  let declarations ← prolog importer version
  lift expectEnd
  return .library qualifier uri declarations

end Grammar

/-- The two kinds of modules. -/
inductive ModuleKind where
  | main
  | library
  deriving DecidableEq, Repr, Inhabited

namespace Grammar

open XQuerySyntax.Parser

variable {σ : Type}

/-- A module of the kind asked for, or of either kind if none is asked for. -/
def moduleUnit (importer : Option (Importer σ)) (kind : Option ModuleKind) (hasLocation : Bool) :
    ModuleParser σ Module := do
  let version ← lift versionDecl
  let isLibrary ← lift (peek Terminal.moduleDecl)
  match kind, isLibrary with
  | some .main, true =>
    lift do
      fatal .malformed (← nextOffset) "expected a main module, found a library module declaration"
  | some .library, _ | none, true => libraryModule importer hasLocation version
  | _, _ => mainModule importer version

/-- A single expression up to the end of the text. -/
def expressionUnit : Parser Expr := do
  let e ← expr exprSingle
  expectEnd
  return e

/-- The error that stopped a parser. Loops never use up their steps, so the second case has no
wording of its own. -/
def Stop.diagnostic : Stop → Diagnostic
  | .fatal d => d
  | .exhausted => .error .implementationLimit 0 "too many steps"

/-- The end of a failed parse. -/
def parseError (stop : Stop) (s : ParserState) : ParseError :=
  ⟨Stop.diagnostic stop, s.recorded, s.module⟩

end Grammar

/-- Parses a single expression without a prolog. -/
def parseExpression (text : String) (config : Config) : Except ParseError Expr :=
  match Grammar.expressionUnit (.ofText text config) with
  | .ok e _ => .ok e
  | .error stop s => .error (Grammar.parseError stop s)

/-- Parses a module of the kind asked for, or of either kind, and loads what it imports. -/
def parseModuleWith {σ : Type} (importer : Option (Importer σ)) (kind : Option ModuleKind)
    (text : String) (config : Config) (imports : σ) : Except ParseError ParsedModule × σ :=
  match Grammar.moduleUnit importer kind config.sourceUri.isSome (.ofText text config, imports) with
  | .ok m (s, imports') => (.ok ⟨s.module, m, s.context, s.recorded⟩, imports')
  | .error stop (s, imports') => (.error (Grammar.parseError stop s), imports')

/-- Parses a module of either kind without loading what it imports. -/
def parseModule (kind : Option ModuleKind) (text : String) (config : Config) :
    Except ParseError ParsedModule :=
  (@parseModuleWith Unit none kind text config ()).1

/-- Parses a main module without loading what it imports. -/
def parseMainModule (text : String) (config : Config) : Except ParseError ParsedModule :=
  parseModule (some .main) text config

/-- Parses a library module without loading what it imports. -/
def parseLibraryModule (text : String) (config : Config) : Except ParseError ParsedModule :=
  parseModule (some .library) text config

end XQuerySyntax
