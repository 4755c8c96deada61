import XQuerySyntax.Grammar.Module
import XQuerySyntax.Library.Path
import XQuerySyntax.Library.Source

/-!
Loading modules. A loader finds the library modules that a module imports, parses each location
once, and keeps the result. While a module is being parsed its location stands on a chain; a module
that comes back to a location on the chain imports itself, which is an error. The chain is never
longer than a fixed limit, which bounds the recursion.
-/

namespace XQuerySyntax

/-- The longest chain of modules that import one another. -/
def importLimit : Nat := 100

/-- What a loader is set up with. -/
structure Loader (π : Type) where
  provider : SourceProvider π
  /-- The settings for every module; its location is put in. -/
  config : Config

/-- What a loader has seen. -/
structure LoaderState (π : Type) where
  sources : π
  /-- Locations of modules by their namespaces, for imports that give no hints. -/
  catalog : Table String (List String)
  /-- Parsed library modules by their locations. -/
  cache : Table String ParsedModule
  /-- The locations of the modules being parsed, outermost first. -/
  loading : List String

/-- Why a main module has no tree. -/
inductive CompileError where
  | parse (error : ParseError)
  | source (error : SourceError)
  deriving DecidableEq, Repr, Inhabited

/-- The error in words. -/
def CompileError.message : CompileError → String
  | parse error => "Parsing failed: " ++ error.describe
  | source error => "Could not read query: " ++ error.message

namespace LoaderState

variable {π : Type}

/-- Nothing seen yet. -/
def ofSources (sources : π) : LoaderState π := ⟨sources, [], [], []⟩

/-- Adds a location to the catalog. -/
def register (s : LoaderState π) (uri location : String) : LoaderState π :=
  { s with catalog := s.catalog.put uri ((s.catalog.get? uri).getD [] ++ [location]) }

/-- Forgets the parsed modules. -/
def clearCache (s : LoaderState π) : LoaderState π := { s with cache := [] }

/-- The number of parsed modules that are kept. -/
def cacheSize (s : LoaderState π) : Nat := s.cache.length

/-- The locations of an imported namespace. Hints are resolved against the importing module; without
hints the catalog answers. -/
def locate (uri : String) (hints : List String) (importer : ModuleId) (s : LoaderState π) :
    List String :=
  if hints.isEmpty then (s.catalog.get? uri).getD []
  else
    let base := if importer = .main then none else some importer.text
    hints.map fun hint => ModuleLocation.resolve hint base

end LoaderState

namespace Loader

variable {π : Type}

/-- The settings for a module at a location. -/
def configAt (l : Loader π) (location : String) : Config :=
  { l.config with sourceUri := some location }

/-- An importer that loads modules in a given way. -/
def importerOf (load : String → LoaderState π → Except ImportError ParsedModule × LoaderState π) :
    Importer (LoaderState π) :=
  ⟨LoaderState.locate, load⟩

/-- Reads and parses the library module at a location. -/
def parseLibraryAt (l : Loader π) (importer : Importer (LoaderState π)) (location : String)
    (s : LoaderState π) : Except ImportError ParsedModule × LoaderState π :=
  match l.provider.read location s.sources with
  | (.error error, sources) => (.error (.unreadable location error.message), { s with sources })
  | (.ok text, sources) =>
    match parseModuleWith importer (some .library) text (l.configAt location)
      { s with sources } with
    | (.ok m, s') => (.ok m, s')
    | (.error error, s') => (.error (.broken location error), s')

/-- Keeps a module that has been loaded. -/
def keep (location : String) (outcome : Except ImportError ParsedModule × LoaderState π) :
    Except ImportError ParsedModule × LoaderState π :=
  match outcome with
  | (.ok m, s) => (.ok m, { s with cache := s.cache.put location m })
  | (.error error, s) => (.error error, s)

/-- Does something while a location stands at the end of the chain. -/
def whileLoading {α : Type} (location : String) (act : LoaderState π → α × LoaderState π)
    (s : LoaderState π) : α × LoaderState π :=
  let (a, s') := act { s with loading := s.loading ++ [location] }
  (a, { s' with loading := s'.loading.dropLast })

/-- Loads the module at a location, if the chain has room for so many more. -/
def loadWithin (l : Loader π) :
    Nat → String → LoaderState π → Except ImportError ParsedModule × LoaderState π
  | room, location, s =>
    -- A module is cached only when it is complete, so a cycle shows in the chain alone.
    if s.loading.contains location then (.error (.cycle (s.loading ++ [location])), s)
    else
      match room with
      | 0 => (.error (.tooDeep importLimit), s)
      | room + 1 =>
        match s.cache.get? location with
        | some m => (.ok m, s)
        | none =>
          keep location
            (whileLoading location (l.parseLibraryAt (importerOf (l.loadWithin room)) location) s)

/-- Loads the module at a location. -/
def load (l : Loader π) (location : String) (s : LoaderState π) :
    Except ImportError ParsedModule × LoaderState π :=
  l.loadWithin (importLimit - s.loading.length) location s

/-- Parses a main module. Its location, if it is given, names it in diagnostics and is what relative
hints start from. -/
def compileMain (l : Loader π) (text : String) (location : Option String) (s : LoaderState π) :
    Except ParseError ParsedModule × LoaderState π :=
  parseModuleWith (importerOf l.load) (some .main) text
    (location.elim l.config l.configAt) s

/-- Reads and parses the main module at a location. -/
def compileMainAt (l : Loader π) (location : String) (s : LoaderState π) :
    Except CompileError ParsedModule × LoaderState π :=
  match l.provider.read location s.sources with
  | (.error error, sources) => (.error (.source error), { s with sources })
  | (.ok text, sources) =>
    let (outcome, s') := l.compileMain text (some location) { s with sources }
    (outcome.mapError .parse, s')

/-- The loader on one line. -/
def describe (l : Loader π) (s : LoaderState π) : String :=
  "ModuleManager \x7b provider: \"" ++ l.provider.name ++ "\", cache_size: " ++
    toString s.cacheSize ++ " \x7d"

end Loader

end XQuerySyntax
