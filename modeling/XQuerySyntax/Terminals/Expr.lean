import XQuerySyntax.Terminals.Basic

/-!
Terminals of expressions: operators and brackets, paths and primary expressions, sequence types,
constructors, clauses, and the update and scripting extensions. A keyword that may also be a name is
told apart by what follows it, which the rule looks at without taking it.
-/

namespace XQuerySyntax.Terminal

/-! ### Separators and brackets -/

def comma : Rule := core "," code toExpression
def lparen : Rule := core "(" expression toExpression
def rparen : Rule := core ")" code toOperator
def lbrace : Rule := core "\x7b" code toExpression
def rbrace : Rule := core "\x7d" code toOperator
def predicateOpen : Rule := core "[" operator toExpression
def predicateClose : Rule := core "]" code toOperator
def dynamicCall : Rule := core "(" operator toExpression
def assign : Rule := core ":=" operator toExpression
def asType : Rule := core "as" operator toTypes

/-! ### Operators -/

def orWord : Rule := core "or" operator toExpression
def andWord : Rule := core "and" operator toExpression
def generalNotEquals : Rule := core "!=" operator toExpression
def generalLessEqual : Rule := core "<=" operator toExpression
def nodePrecedes : Rule := core "<<" operator toExpression
def generalLess : Rule := core "<" operator toExpression
def generalGreaterEqual : Rule := core ">=" operator toExpression
def nodeFollows : Rule := core ">>" operator toExpression
def generalGreater : Rule := core ">" operator toExpression
def generalEquals : Rule := core "=" operator toExpression
def valueEquals : Rule := core "eq" operator toExpression
def valueNotEquals : Rule := core "ne" operator toExpression
def valueLess : Rule := core "lt" operator toExpression
def valueLessEqual : Rule := core "le" operator toExpression
def valueGreater : Rule := core "gt" operator toExpression
def valueGreaterEqual : Rule := core "ge" operator toExpression
def isSameNode : Rule := core "is" operator toExpression
def toRange : Rule := core "to" operator toExpression
def plus : Rule := core "+" operator toExpression
def minus : Rule := core "-" operator toExpression
def multiply : Rule := core "*" operator toExpression
def divide : Rule := core "div" operator toExpression
def integerDivide : Rule := core "idiv" operator toExpression
def modulo : Rule := core "mod" operator toExpression
def unionWord : Rule := core "union" operator toExpression
def unionBar : Rule := core "|" operator toExpression
def intersectWord : Rule := core "intersect" operator toExpression
def exceptWord : Rule := core "except" operator toExpression
def instanceOf : Rule := core "instance of" operator toTypes
def treatAs : Rule := core "treat as" operator toTypes
def castableAs : Rule := core "castable as" operator toTypes
def castAs : Rule := core "cast as" operator toTypes
def unaryMinus : Rule := core "-" expression .stay
def unaryPlus : Rule := core "+" expression .stay

/-! ### Paths -/

def rootDescendants : Rule := core "//" expression toExpression
def rootSlash : Rule := core "/" expression toExpression
def descendantsSeparator : Rule := core "//" operator toExpression
def slashSeparator : Rule := core "/" operator toExpression
def axis : Rule := core "%N ::" expression .stay
def abbrevAttribute : Rule := core "@" expression .stay
def parentStep : Rule := core ".." expression toOperator
def contextItem : Rule := core "." expression toOperator
def wildcardPrefix : Rule := core "*:%N" expression toOperator
def wildcardLocal : Rule := core "%N:*" expression toOperator
def wildcard : Rule := core "*" expression toOperator
def nameTest : Rule := core "%Q" expression toOperator

/-! ### Primary expressions -/

def numericLiteral : Rule := core "%D" expression toOperator
def stringLiteral : Rule := core "%S" expression toOperator
def variableReference : Rule := core "$ %Q" expression toOperator
def functionCall : Rule := core "%Q (" expression toExpression
def namedFunctionRef : Rule := core "%Q #%D" expression toOperator
def argumentPlaceholder : Rule := core "?" expression toOperator
def inlineFunction : Rule := core "function %^(" expression .stay
def pragmaOpen : Rule := core "(# %Q" expression .stay
def orderedBlock : Rule := core "ordered %^\x7b" expression .stay
def unorderedBlock : Rule := core "unordered %^\x7b" expression .stay
def validate : Rule := core "validate %^\x7b" expression .stay
def validateType : Rule := core "validate type %Q %^\x7b" expression .stay
def validateMode : Rule := core "validate %N %^\x7b" expression .stay

/-! ### Sequence types and kind tests -/

def emptySequence : Rule := core "empty-sequence ( )" types .stay
def anyItem : Rule := core "item ( )" types .stay
def anyFunction : Rule := core "function ( * )" types .stay
def functionTest : Rule := core "function (" types .stay
def typeParenOpen : Rule := core "(" types .stay
def typeName : Rule := core "%Q" types .stay
def kindDocument : Rule := core "document-node (" expressionOrTypes toTypes
def kindElement : Rule := core "element (" expressionOrTypes toTypes
def kindAttribute : Rule := core "attribute (" expressionOrTypes toTypes
def kindSchemaElement : Rule := core "schema-element (" expressionOrTypes toTypes
def kindSchemaAttribute : Rule := core "schema-attribute (" expressionOrTypes toTypes
def kindPi : Rule := core "processing-instruction (" expressionOrTypes toTypes
def kindComment : Rule := core "comment (" expressionOrTypes toTypes
def kindText : Rule := core "text (" expressionOrTypes toTypes
def kindNamespaceNode : Rule := core "namespace-node (" expressionOrTypes toTypes
def kindNode : Rule := core "node (" expressionOrTypes toTypes
def kindWildcard : Rule := core "*" types .stay
def kindName : Rule := core "%Q" types .stay
def kindNcname : Rule := core "%N" types .stay
def kindString : Rule := core "%S" types .stay
def kindComma : Rule := core "," types .stay
def kindNillable : Rule := core "?" types .stay
def kindAs : Rule := core "as" types .stay
def kindClose : Rule := core ")" types .stay
def occursOptional : Rule := core "?" occurrences .stay
def occursZeroOrMore : Rule := core "*" occurrences .stay
def occursOneOrMore : Rule := core "+" occurrences .stay

/-! ### Direct constructors -/

def elementOpen : Rule := core "<%Q" expression (.enter .tag .operator)
def nestedElementOpen : Rule := core "<%Q" content (.push .tag)
def attributeName : Rule := core "%Q =" tags .stay
def attributeQuotOpen : Rule := core "\"" tags (.goto .quotedValue)
def attributeAposOpen : Rule := core "'" tags (.goto .apostropheValue)
def attributeQuotClose : Rule := core "\"" quotedValue (.goto .tag)
def attributeAposClose : Rule := core "'" apostropheValue (.goto .tag)
def startTagClose : Rule := core ">" tags (.goto .content)
def emptyTagClose : Rule := core "/>" tags .pop
def endTag : Rule := core "</%Q >" content .pop
def enclosedOpen : Rule := core "\x7b" contentOrAttribute (.push .expression)
def enclosedClose : Rule := core "\x7d" code .pop
def cdataOpen : Rule := core "<![CDATA[" content .stay
def commentOpen : Rule := core "<!--" expression toOperator
def nestedCommentOpen : Rule := core "<!--" content .stay
def piOpen : Rule := core "<?%N" expression toOperator
def nestedPiOpen : Rule := core "<?%N" content .stay

/-! ### Computed constructors -/

def computedDocument : Rule := core "document %^\x7b" expression .stay
def computedElementNamed : Rule := core "element %Q %^\x7b" expression .stay
def computedElement : Rule := core "element %^\x7b" expression .stay
def computedAttributeNamed : Rule := core "attribute %Q %^\x7b" expression .stay
def computedAttribute : Rule := core "attribute %^\x7b" expression .stay
def computedText : Rule := core "text %^\x7b" expression .stay
def computedComment : Rule := core "comment %^\x7b" expression .stay
def computedPiNamed : Rule := core "processing-instruction %N %^\x7b" expression .stay
def computedPi : Rule := core "processing-instruction %^\x7b" expression .stay
def computedNamespaceNamed : Rule := core "namespace %N %^\x7b" expression .stay
def computedNamespace : Rule := core "namespace %^\x7b" expression .stay

/-! ### Keyword expressions -/

def ifCondition : Rule := core "if %^(" expression .stay
def thenBranch : Rule := core "then" operator toExpression
def elseBranch : Rule := core "else" operator toExpression
def someQuantifier : Rule := core "some %^$" expression .stay
def everyQuantifier : Rule := core "every %^$" expression .stay
def satisfies : Rule := core "satisfies" operator toExpression
def switch : Rule := core "switch %^(" expression .stay
def typeswitch : Rule := core "typeswitch %^(" expression .stay
def caseBranch : Rule := core "case" operator toExpression
def typeUnion : Rule := core "|" operator toTypes
def defaultReturn : Rule := core "default return" operator toExpression
def defaultVariable : Rule := core "default %^$" operator toExpression
def tryBody : Rule := core "try %^\x7b" expression .stay
def catchWithVariables : Rule := core "catch (" operator toExpression
def catchClause : Rule := core "catch" operator toExpression

/-! ### Clauses -/

def forTumbling : Rule := core "for tumbling window %^$" code toExpression
def forSliding : Rule := core "for sliding window %^$" code toExpression
def forClause : Rule := core "for %^$" code toExpression
def letScore : Rule := fullText "let score %^$" code toExpression
def letClause : Rule := core "let %^$" code toExpression
def countClause : Rule := core "count %^$" operator toExpression
def allowingEmpty : Rule := core "allowing empty" operator .stay
def atVariable : Rule := core "at %^$" operator toExpression
def scoreVariable : Rule := fullText "score %^$" operator toExpression
def inSource : Rule := core "in" operator toExpression
def whereClause : Rule := core "where" operator toExpression
def groupBy : Rule := core "group by" operator toExpression
def stableOrderBy : Rule := core "stable order by" operator toExpression
def orderBy : Rule := core "order by" operator toExpression
def ascending : Rule := core "ascending" operator .stay
def descending : Rule := core "descending" operator .stay
def emptyGreatest : Rule := core "empty greatest" operator .stay
def emptyLeast : Rule := core "empty least" operator .stay
def collation : Rule := core "collation %S" operator .stay
def returnClause : Rule := core "return" operator toExpression
def windowStart : Rule := core "start" operator toExpression
def windowOnlyEnd : Rule := core "only end" operator toExpression
def windowEnd : Rule := core "end" operator toExpression
def windowPrevious : Rule := core "previous %^$" code toExpression
def windowNext : Rule := core "next %^$" code toExpression
def windowAt : Rule := core "at %^$" code toExpression
def whenCondition : Rule := core "when" code toExpression

/-! ### Updates -/

def insertNode : Rule := update "insert node" expression toExpression
def insertNodes : Rule := update "insert nodes" expression toExpression
def asFirstInto : Rule := update "as first into" operator toExpression
def asLastInto : Rule := update "as last into" operator toExpression
def intoTarget : Rule := update "into" operator toExpression
def afterTarget : Rule := update "after" operator toExpression
def beforeTarget : Rule := update "before" operator toExpression
def deleteNode : Rule := update "delete node" expression toExpression
def deleteNodes : Rule := update "delete nodes" expression toExpression
def replaceValue : Rule := update "replace value of node" expression toExpression
def replaceNode : Rule := update "replace node" expression toExpression
def withReplacement : Rule := update "with" operator toExpression
def renameNode : Rule := update "rename node" expression toExpression
def asName : Rule := update "as" operator toExpression
def copyClause : Rule := update "copy %^$" expression toExpression
def modifyClause : Rule := update "modify" operator toExpression

/-! ### Scripting -/

def blockOpen : Rule := scripting "block %^\x7b" expression .stay
def blockDeclare : Rule := scripting "declare %^$" expression toExpression
def statementSeparator : Rule := scripting ";" code toExpression
def assignment : Rule := scripting "$ %Q :=" expression toExpression
def setVariable : Rule := scripting "set %^$" expression toExpression
def whileLoop : Rule := scripting "while %^(" expression .stay
def exitReturning : Rule := scripting "exit returning" expression toExpression
def exitWith : Rule := scripting "exit with" expression toExpression
def breakLoop : Rule := scripting "break loop" expression toOperator
def continueLoop : Rule := scripting "continue loop" expression toOperator

end XQuerySyntax.Terminal
