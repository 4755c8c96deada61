import XQuerySyntax.Text.Location

/-!
Diagnostics: what is wrong with a module, how badly, and where. Each kind of error has one short
code. A parse records errors that leave a usable tree and stops at the first one that does not.
-/

namespace XQuerySyntax

/-- The kinds of errors. -/
inductive ErrorCode where
  | malformed
  | unknownPrefix
  | unsupportedVersion
  | duplicateBaseUri
  | duplicateNamespacePrefix
  | duplicateFunction
  | duplicateDefaultCollation
  | duplicateParameter
  | duplicateAttribute
  | namespaceAttributeNotLiteral
  | reservedFunctionNamespace
  | duplicateModuleImport
  | componentOutsideModuleNamespace
  | duplicateVariable
  | duplicateCopyNamespaces
  | duplicateSchemaImport
  | moduleNotFound
  | duplicateOrdering
  | duplicateDefaultNamespace
  | duplicateConstruction
  | duplicateBoundarySpace
  | duplicateEmptyOrder
  | reservedNamespace
  | duplicateNamespaceAttribute
  | emptyNamespaceUri
  | invalidEncoding
  | emptyModuleNamespace
  | positionalVariableConflict
  | invalidCharacterReference
  | cyclicImport
  | groupingVariableNotInScope
  | invalidDecimalFormatValue
  | duplicateContextItem
  | duplicateWindowVariable
  | duplicateAnnotations
  | duplicateDecimalFormat
  | duplicateDecimalFormatProperty
  | tagMismatch
  | duplicateRevalidation
  | duplicateMatchOption
  | encodingIgnored
  | implementationLimit
  deriving DecidableEq, Repr, Inhabited

namespace ErrorCode

/-- The short code. -/
def text : ErrorCode → String
  | malformed => "XPST0003"
  | unknownPrefix => "XPST0081"
  | unsupportedVersion => "XQST0031"
  | duplicateBaseUri => "XQST0032"
  | duplicateNamespacePrefix => "XQST0033"
  | duplicateFunction => "XQST0034"
  | duplicateDefaultCollation => "XQST0038"
  | duplicateParameter => "XQST0039"
  | duplicateAttribute => "XQST0040"
  | namespaceAttributeNotLiteral => "XQST0022"
  | reservedFunctionNamespace => "XQST0045"
  | duplicateModuleImport => "XQST0047"
  | componentOutsideModuleNamespace => "XQST0048"
  | duplicateVariable => "XQST0049"
  | duplicateCopyNamespaces => "XQST0055"
  | duplicateSchemaImport => "XQST0058"
  | moduleNotFound => "XQST0059"
  | duplicateOrdering => "XQST0065"
  | duplicateDefaultNamespace => "XQST0066"
  | duplicateConstruction => "XQST0067"
  | duplicateBoundarySpace => "XQST0068"
  | duplicateEmptyOrder => "XQST0069"
  | reservedNamespace => "XQST0070"
  | duplicateNamespaceAttribute => "XQST0071"
  | emptyNamespaceUri => "XQST0085"
  | invalidEncoding => "XQST0087"
  | emptyModuleNamespace => "XQST0088"
  | positionalVariableConflict => "XQST0089"
  | invalidCharacterReference => "XQST0090"
  | cyclicImport => "XQST0093"
  | groupingVariableNotInScope => "XQST0094"
  | invalidDecimalFormatValue => "XQST0097"
  | duplicateContextItem => "XQST0099"
  | duplicateWindowVariable => "XQST0103"
  | duplicateAnnotations => "XQST0106"
  | duplicateDecimalFormat => "XQST0111"
  | duplicateDecimalFormatProperty => "XQST0114"
  | tagMismatch => "XQST0118"
  | duplicateRevalidation => "XUST0003"
  | duplicateMatchOption => "FTST0019"
  | encodingIgnored => "XQWN0001"
  | implementationLimit => "XPDY0130"

end ErrorCode

/-- How badly. -/
inductive Severity where
  | error
  | warning
  deriving DecidableEq, Repr, Inhabited

/-- The severity in words. -/
def Severity.text : Severity → String
  | .error => "error"
  | .warning => "warning"

/-- One error or warning at a byte offset of the module text. -/
structure Diagnostic where
  code : ErrorCode
  offset : Nat
  message : String
  severity : Severity
  deriving DecidableEq, Repr, Inhabited

namespace Diagnostic

/-- An error. -/
def error (code : ErrorCode) (offset : Nat) (message : String) : Diagnostic :=
  ⟨code, offset, message, .error⟩

/-- A warning. -/
def warning (code : ErrorCode) (offset : Nat) (message : String) : Diagnostic :=
  ⟨code, offset, message, .warning⟩

/-- Whether it is an error. -/
def isError (d : Diagnostic) : Bool := d.severity == .error

/-- Whether it is a warning. -/
def isWarning (d : Diagnostic) : Bool := d.severity == .warning

/-- The diagnostic on one line. -/
def describe (d : Diagnostic) : String :=
  d.severity.text ++ " [" ++ d.code.text ++ "] at offset " ++ toString d.offset ++ ": " ++ d.message

/-- Where the diagnostic points in the text. -/
def location (d : Diagnostic) (text : String) : Location :=
  Location.ofOffset text d.offset

/-- The number of errors. -/
def errorCount (ds : List Diagnostic) : Nat := ds.countP isError

/-- The number of warnings. -/
def warningCount (ds : List Diagnostic) : Nat := ds.countP isWarning

end Diagnostic

/-- Identifies a module: its source location, or a fixed mark for a query without one. -/
structure ModuleId where
  text : String
  deriving DecidableEq, Repr, Inhabited

namespace ModuleId

/-- A main module without a location. -/
def main : ModuleId := ⟨"#main"⟩

/-- The module at a location, if it has one. -/
def ofLocation? (location : Option String) : ModuleId :=
  (location.map ModuleId.mk).getD main

end ModuleId

/-- The end of a failed parse: the error that stopped it, and what was recorded before. -/
structure ParseError where
  diagnostic : Diagnostic
  recorded : List Diagnostic
  module : ModuleId
  deriving DecidableEq, Repr, Inhabited

/-- The failure on one line. -/
def ParseError.describe (e : ParseError) : String :=
  e.module.text ++ ": " ++ e.diagnostic.describe

end XQuerySyntax
