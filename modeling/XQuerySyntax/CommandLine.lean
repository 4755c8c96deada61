import XQuerySyntax.Library.Loader
import XQuerySyntax.Report

/-!
The command line: what the arguments ask for, and the answer. The file to parse is the one argument
that is no flag; what it imports is found from its directory on.
-/

namespace XQuerySyntax

namespace CommandLine

/-- What a check of a file is to do. -/
structure Options where
  /-- Report as JSON. -/
  json : Bool
  extensions : Extensions
  /-- The path of the main module. -/
  query : String
  deriving DecidableEq, Repr

/-- What the arguments ask for. -/
inductive Request where
  | check (options : Options)
  | help
  | version
  | misuse (reason : String)
  deriving DecidableEq, Repr

/-- Switches; each may be given once. -/
inductive Flag where
  | json
  | noFullText
  | noUpdate
  | noScripting
  deriving DecidableEq, Repr

/-- The switches as they are written. -/
def Flag.named : List (String × Flag) :=
  [("--json", .json), ("--no-full-text", .noFullText), ("--no-update", .noUpdate),
    ("--no-scripting", .noScripting)]

/-- The options that a list of switches and a path stand for. -/
def Options.ofFlags (flags : List Flag) (query : String) : Options :=
  ⟨flags.contains .json,
    ⟨!flags.contains .noFullText, !flags.contains .noUpdate, !flags.contains .noScripting⟩, query⟩

/-- An argument that is out of place. -/
def unexpected (argument : String) : Request := .misuse ("unexpected argument '" ++ argument ++ "'")

/-- Whether an argument is read as a switch. A single dash is a path. -/
def looksLikeFlag (argument : String) : Bool :=
  argument.toList.head? = some '-' ∧ argument ≠ "-"

/-- What an argument that is no switch asks for, short or long. -/
def information? (argument : String) : Option Request :=
  if argument = "--help" then some .help
  else if argument = "--version" then some .version
  else
    match argument.toList with
    | '-' :: 'h' :: _ => some .help
    | '-' :: 'V' :: _ => some .version
    | _ => none

/-- Reads arguments. Behind a double dash everything is a path. The first argument out of place
decides. -/
def read (flags : List Flag) (query : Option String) (onlyPaths : Bool) : List String → Request
  | [] =>
    match query with
    | some path => .check (.ofFlags flags path)
    | none => .misuse "the path of a module is required"
  | argument :: rest =>
    if !onlyPaths && argument == "--" then read flags query true rest
    else if !onlyPaths && looksLikeFlag argument then
      match Flag.named.lookup argument, information? argument with
      | some flag, _ =>
        if flags.contains flag then
          .misuse ("the argument '" ++ argument ++ "' cannot be used multiple times")
        else read (flag :: flags) query false rest
      | none, some request => request
      | none, none => unexpected argument
    else if query.isSome || argument.isEmpty then unexpected argument
    else read flags (some argument) onlyPaths rest

/-- What a list of arguments asks for. -/
def Request.ofArguments (arguments : List String) : Request := read [] none false arguments

/-- What the program writes, and how it ends. -/
structure Outcome where
  status : Nat
  output : String
  errors : String
  deriving DecidableEq, Repr

/-- The name and the version. -/
def versionText : String := "xqfront 0.1.0\n"

/-- How the program is used. -/
def usageText : String := "Usage: xqfront [OPTIONS] <QUERY>\n"

/-- The switches and what they do. -/
def helpText : String :=
  "XQuery front end: context-sensitive scanner, parser and module resolution\n\n" ++ usageText ++
  "\nArguments:\n" ++
  "  <QUERY>  Main module to parse; relative imports resolve from its directory\n" ++
  "\nOptions:\n" ++
  "      --json          Print the syntax tree and diagnostics as JSON\n" ++
  "      --no-full-text  Treat full-text keywords as ordinary names\n" ++
  "      --no-update     Treat update keywords as ordinary names\n" ++
  "      --no-scripting  Treat scripting keywords as ordinary names\n" ++
  "  -h, --help          Print help\n" ++
  "  -V, --version       Print version\n"

/-- The answer to arguments that make no sense. -/
def misuseOutcome (reason : String) : Outcome :=
  ⟨2, "", "error: " ++ reason ++ "\n\n" ++ usageText ++
    "\nFor more information, try '--help'.\n"⟩

/-! ### The file -/

/-- The pieces of a path. A dot in front is kept, since it tells the working directory from no
directory at all. -/
def components (path : List Char) : List (List Char) :=
  let segments := (Path.ofChars path).segments
  if (Path.split path).head? = some ['.'] then ['.'] :: segments else segments

/-- The directory that a file lies in. -/
def directoryOf (path : String) : String :=
  let pieces := components path.toList
  if pieces.isEmpty then "."
  else String.ofList (Path.toChars ⟨path.toList.head? = some '/', pieces.dropLast⟩)

/-- The name of a file; a path that ends in dots or at the root has none. -/
def fileNameOf (path : String) : String :=
  match (components path.toList).getLast? with
  | some name => if name = ['.'] ∨ name = ['.', '.'] then "" else String.ofList name
  | none => ""

/-- The settings of a check. -/
def Options.config (o : Options) : Config := { Config.standard with extensions := o.extensions }

/-- The answer of a check. -/
def Options.present (o : Options) (report : Report) : Outcome :=
  let lines := if o.json then [report.toJson.toText] else report.lines (fileNameOf o.query)
  ⟨if report.failed then 1 else 0, String.join (lines.map (· ++ "\n")), ""⟩

/-- Parses a file and what it imports. The provider reads from the directory of the file. -/
def check {π : Type} (provider : SourceProvider π) (o : Options) (sources : π) : Outcome × π :=
  let file := fileNameOf o.query
  match provider.read file sources with
  | (.error error, sources') => (⟨2, "", error.message ++ "\n"⟩, sources')
  | (.ok text, sources') =>
    let (parsed, state) :=
      Loader.compileMain ⟨provider, o.config⟩ text (some file) (.ofSources sources')
    (o.present (.ofParse text parsed), state.sources)

/-- Runs a request. The providers of all directories are given. -/
def run {π : Type} (providerOf : (directory : String) → SourceProvider π) (sources : π) :
    Request → Outcome × π
  | .check options => check (providerOf (directoryOf options.query)) options sources
  | .help => (⟨0, helpText, ""⟩, sources)
  | .version => (⟨0, versionText, ""⟩, sources)
  | .misuse reason => (misuseOutcome reason, sources)

end CommandLine

end XQuerySyntax
