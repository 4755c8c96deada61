import XQuerySyntax.Terminals.Basic

/-!
Terminals of the module structure and the prolog: version and module declarations, imports, setters,
annotations, and the declarations of variables and functions.
-/

namespace XQuerySyntax.Terminal

/-! ### Module structure and prolog -/

def versionDecl : Rule := core "xquery version %S" expression .stay
def versionEncoding : Rule := core "encoding %S" expression .stay
def encodingDecl : Rule := core "xquery encoding %S" expression .stay
def moduleDecl : Rule := core "module namespace" expression toNamespaces
def semicolon : Rule := core ";" outsideMarkup toExpression
def declareWord : Rule := core "declare %^%N" expression toDeclaration
def declareAnnotated : Rule := core "declare %^%%" expression toDeclaration
def importSchema : Rule := core "import schema" expression toNamespaces
def importModule : Rule := core "import module" expression toNamespaces
def namespaceBinding : Rule := core "%N = %S" namespaces .stay
def namespacePrefixed : Rule := core "namespace %N =" namespaces .stay
def importDefaultElement : Rule := core "default element namespace" namespaces .stay
def namespaceUri : Rule := core "%S" namespaces .stay
def locationHint : Rule := core "at %S" namespaces .stay
def moreLocations : Rule := core ", %S" namespaces .stay
def declareBoundarySpace : Rule := core "boundary-space" declaration .stay
def declareDefaultCollation : Rule := core "default collation %S" declaration .stay
def declareBaseUri : Rule := core "base-uri %S" declaration .stay
def declareConstruction : Rule := core "construction" declaration .stay
def declareOrdering : Rule := core "ordering" declaration .stay
def declareEmptyOrder : Rule := core "default order empty" declaration .stay
def declareCopyNamespaces : Rule := core "copy-namespaces" declaration .stay
def declareDecimalFormat : Rule := core "decimal-format %Q" declaration .stay
def declareDefaultDecimalFormat : Rule := core "default decimal-format" declaration .stay
def decimalFormatProperty : Rule := core "%N = %S" declaration .stay
def declareNamespace : Rule := core "namespace" declaration toNamespaces
def declareDefaultElementNs : Rule := core "default element namespace %S" declaration .stay
def declareDefaultFunctionNs : Rule := core "default function namespace %S" declaration .stay
def declareOption : Rule := core "option %Q %S" declaration .stay
def declareContextItem : Rule := core "context item" declaration toVariables
def declareVariable : Rule := core "variable" declaration toVariables
def declareFunction : Rule := core "function %Q" declaration .stay
def declareUpdating : Rule := update "updating" declaration .stay
def declareSequential : Rule := scripting "sequential" declaration .stay
def declareSimple : Rule := scripting "simple" declaration .stay
def declareRevalidation : Rule := update "revalidation" declaration .stay
def declareFtOption : Rule := fullText "ft-option" declaration toOperator
def preserveMode : Rule := core "preserve" declaration .stay
def stripMode : Rule := core "strip" declaration .stay
def noPreserve : Rule := core "no-preserve" declaration .stay
def inherit : Rule := core "inherit" declaration .stay
def noInherit : Rule := core "no-inherit" declaration .stay
def declareComma : Rule := core "," declaration .stay
def orderedMode : Rule := core "ordered" declaration .stay
def unorderedMode : Rule := core "unordered" declaration .stay
def greatest : Rule := core "greatest" declaration .stay
def least : Rule := core "least" declaration .stay
def strictMode : Rule := core "strict" declaration .stay
def laxMode : Rule := core "lax" declaration .stay
def skipMode : Rule := core "skip" declaration .stay

/-! ### Annotations, in the prolog and on inline functions -/

def annotationName : Rule := core "%%%Q" declarationOrExpression .stay
def annotationOpen : Rule := core "(" declarationOrExpression .stay
def annotationString : Rule := core "%S" declarationOrExpression .stay
def annotationNumber : Rule := core "%D" declarationOrExpression .stay
def annotationComma : Rule := core "," declarationOrExpression .stay
def annotationClose : Rule := core ")" declarationOrExpression .stay

/-! ### Declarations of variables, the context item and functions -/

def variableName : Rule := core "$ %Q" variableDeclaration .stay
def variableAs : Rule := core "as" variableDeclaration toTypes
def variableAssign : Rule := core ":=" variableDeclaration toExpression
def externalMark : Rule := core "external" variableDeclaration .stay
def paramsOpen : Rule := core "(" declarationOrExpression toVariables
def paramComma : Rule := core "," variableDeclaration .stay
def paramsClose : Rule := core ")" variableDeclaration .stay
def bodyOpen : Rule := core "\x7b" variableDeclaration toExpression

end XQuerySyntax.Terminal
