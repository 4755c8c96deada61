import XQuerySyntax.Grammar.Module
import XQuerySyntax.Json.Module

/-!
What is reported of a parse: the tree, if there is one, and the diagnostics with lines and columns.
-/

namespace XQuerySyntax

/-- A diagnostic with its place in lines and columns. -/
structure Finding where
  diagnostic : Diagnostic
  location : Location

namespace Finding

/-- A diagnostic of a text. -/
def ofDiagnostic (text : String) (d : Diagnostic) : Finding := ⟨d, d.location text⟩

/-- The finding on one line, behind the name of the file. -/
def describe (file : String) (f : Finding) : String :=
  file ++ ":" ++ toString f.location.line ++ ":" ++ toString f.location.column ++ ": " ++
    f.diagnostic.severity.text ++ " [" ++ f.diagnostic.code.text ++ "] " ++ f.diagnostic.message

/-- The finding as JSON. -/
def toJson (f : Finding) : Json :=
  .object
    [("code", .string f.diagnostic.code.text), ("severity", .string f.diagnostic.severity.text),
      ("line", .number f.location.line), ("column", .number f.location.column),
      ("message", .string f.diagnostic.message)]

end Finding

/-- What is reported of a parse. -/
structure Report where
  module : Option Module
  findings : List Finding
  /-- There is no tree, or there are errors beside it. -/
  failed : Bool

namespace Report

/-- The report of a parse of a text. A parse that stopped reports what it recorded before and what
stopped it. -/
def ofParse (text : String) : Except ParseError ParsedModule → Report
  | .ok m => ⟨some m.module, m.diagnostics.map (.ofDiagnostic text), !m.isOk⟩
  | .error e => ⟨none, (e.recorded ++ [e.diagnostic]).map (.ofDiagnostic text), true⟩

/-- The report as JSON. -/
def toJson (r : Report) : Json :=
  .object [("module", .optional Module.toJson r.module),
    ("diagnostics", .list Finding.toJson r.findings)]

/-- The report in lines, one for each finding and one for success. -/
def lines (file : String) (r : Report) : List String :=
  r.findings.map (·.describe file) ++ (if r.failed then [] else [file ++ ": ok"])

end Report

end XQuerySyntax
