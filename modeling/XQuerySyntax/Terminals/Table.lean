import XQuerySyntax.Terminals.Expr
import XQuerySyntax.Terminals.FullText
import XQuerySyntax.Terminals.Module

/-!
The terminal rules by name.
-/

namespace XQuerySyntax.Terminal

/-- Modules, prologs and declarations. -/
def moduleRules : List (String × Rule) :=
  [("versionDecl", versionDecl), ("versionEncoding", versionEncoding),
    ("encodingDecl", encodingDecl), ("moduleDecl", moduleDecl), ("semicolon", semicolon),
    ("declareWord", declareWord), ("declareAnnotated", declareAnnotated),
    ("importSchema", importSchema), ("importModule", importModule),
    ("namespaceBinding", namespaceBinding), ("namespacePrefixed", namespacePrefixed),
    ("importDefaultElement", importDefaultElement), ("namespaceUri", namespaceUri),
    ("locationHint", locationHint), ("moreLocations", moreLocations),
    ("declareBoundarySpace", declareBoundarySpace),
    ("declareDefaultCollation", declareDefaultCollation), ("declareBaseUri", declareBaseUri),
    ("declareConstruction", declareConstruction), ("declareOrdering", declareOrdering),
    ("declareEmptyOrder", declareEmptyOrder), ("declareCopyNamespaces", declareCopyNamespaces),
    ("declareDecimalFormat", declareDecimalFormat),
    ("declareDefaultDecimalFormat", declareDefaultDecimalFormat),
    ("decimalFormatProperty", decimalFormatProperty), ("declareNamespace", declareNamespace),
    ("declareDefaultElementNs", declareDefaultElementNs),
    ("declareDefaultFunctionNs", declareDefaultFunctionNs), ("declareOption", declareOption),
    ("declareContextItem", declareContextItem), ("declareVariable", declareVariable),
    ("declareFunction", declareFunction), ("declareUpdating", declareUpdating),
    ("declareSequential", declareSequential), ("declareSimple", declareSimple),
    ("declareRevalidation", declareRevalidation), ("declareFtOption", declareFtOption),
    ("preserveMode", preserveMode), ("stripMode", stripMode), ("noPreserve", noPreserve),
    ("inherit", inherit), ("noInherit", noInherit), ("declareComma", declareComma),
    ("orderedMode", orderedMode), ("unorderedMode", unorderedMode), ("greatest", greatest),
    ("least", least), ("strictMode", strictMode), ("laxMode", laxMode), ("skipMode", skipMode),
    ("annotationName", annotationName), ("annotationOpen", annotationOpen),
    ("annotationString", annotationString), ("annotationNumber", annotationNumber),
    ("annotationComma", annotationComma), ("annotationClose", annotationClose),
    ("variableName", variableName), ("variableAs", variableAs), ("variableAssign", variableAssign),
    ("externalMark", externalMark), ("paramsOpen", paramsOpen), ("paramComma", paramComma),
    ("paramsClose", paramsClose), ("bodyOpen", bodyOpen)]

/-- Operators. -/
def operatorRules : List (String × Rule) :=
  [("comma", comma), ("lparen", lparen), ("rparen", rparen), ("lbrace", lbrace),
    ("rbrace", rbrace), ("predicateOpen", predicateOpen), ("predicateClose", predicateClose),
    ("dynamicCall", dynamicCall), ("assign", assign), ("asType", asType), ("orWord", orWord),
    ("andWord", andWord), ("generalNotEquals", generalNotEquals),
    ("generalLessEqual", generalLessEqual), ("nodePrecedes", nodePrecedes),
    ("generalLess", generalLess), ("generalGreaterEqual", generalGreaterEqual),
    ("nodeFollows", nodeFollows), ("generalGreater", generalGreater),
    ("generalEquals", generalEquals), ("valueEquals", valueEquals),
    ("valueNotEquals", valueNotEquals), ("valueLess", valueLess),
    ("valueLessEqual", valueLessEqual), ("valueGreater", valueGreater),
    ("valueGreaterEqual", valueGreaterEqual), ("isSameNode", isSameNode), ("toRange", toRange),
    ("plus", plus), ("minus", minus), ("multiply", multiply), ("divide", divide),
    ("integerDivide", integerDivide), ("modulo", modulo), ("unionWord", unionWord),
    ("unionBar", unionBar), ("intersectWord", intersectWord), ("exceptWord", exceptWord),
    ("instanceOf", instanceOf), ("treatAs", treatAs), ("castableAs", castableAs),
    ("castAs", castAs), ("unaryMinus", unaryMinus), ("unaryPlus", unaryPlus)]

/-- Paths and primary expressions. -/
def pathRules : List (String × Rule) :=
  [("rootDescendants", rootDescendants), ("rootSlash", rootSlash),
    ("descendantsSeparator", descendantsSeparator), ("slashSeparator", slashSeparator),
    ("axis", axis), ("abbrevAttribute", abbrevAttribute), ("parentStep", parentStep),
    ("contextItem", contextItem), ("wildcardPrefix", wildcardPrefix),
    ("wildcardLocal", wildcardLocal), ("wildcard", wildcard), ("nameTest", nameTest),
    ("numericLiteral", numericLiteral), ("stringLiteral", stringLiteral),
    ("variableReference", variableReference), ("functionCall", functionCall),
    ("namedFunctionRef", namedFunctionRef), ("argumentPlaceholder", argumentPlaceholder),
    ("inlineFunction", inlineFunction), ("pragmaOpen", pragmaOpen), ("orderedBlock", orderedBlock),
    ("unorderedBlock", unorderedBlock), ("validate", validate), ("validateType", validateType),
    ("validateMode", validateMode)]

/-- Expressions that begin with a keyword. -/
def clauseRules : List (String × Rule) :=
  [("ifCondition", ifCondition), ("thenBranch", thenBranch), ("elseBranch", elseBranch),
    ("someQuantifier", someQuantifier), ("everyQuantifier", everyQuantifier),
    ("satisfies", satisfies), ("switch", switch), ("typeswitch", typeswitch),
    ("caseBranch", caseBranch), ("typeUnion", typeUnion), ("defaultReturn", defaultReturn),
    ("defaultVariable", defaultVariable), ("tryBody", tryBody),
    ("catchWithVariables", catchWithVariables), ("catchClause", catchClause),
    ("forTumbling", forTumbling), ("forSliding", forSliding), ("forClause", forClause),
    ("letScore", letScore), ("letClause", letClause), ("countClause", countClause),
    ("allowingEmpty", allowingEmpty), ("atVariable", atVariable), ("scoreVariable", scoreVariable),
    ("inSource", inSource), ("whereClause", whereClause), ("groupBy", groupBy),
    ("stableOrderBy", stableOrderBy), ("orderBy", orderBy), ("ascending", ascending),
    ("descending", descending), ("emptyGreatest", emptyGreatest), ("emptyLeast", emptyLeast),
    ("collation", collation), ("returnClause", returnClause), ("windowStart", windowStart),
    ("windowOnlyEnd", windowOnlyEnd), ("windowEnd", windowEnd), ("windowPrevious", windowPrevious),
    ("windowNext", windowNext), ("windowAt", windowAt), ("whenCondition", whenCondition)]

/-- Constructors. -/
def constructorRules : List (String × Rule) :=
  [("elementOpen", elementOpen), ("nestedElementOpen", nestedElementOpen),
    ("attributeName", attributeName), ("attributeQuotOpen", attributeQuotOpen),
    ("attributeAposOpen", attributeAposOpen), ("attributeQuotClose", attributeQuotClose),
    ("attributeAposClose", attributeAposClose), ("startTagClose", startTagClose),
    ("emptyTagClose", emptyTagClose), ("endTag", endTag), ("enclosedOpen", enclosedOpen),
    ("enclosedClose", enclosedClose), ("cdataOpen", cdataOpen), ("commentOpen", commentOpen),
    ("nestedCommentOpen", nestedCommentOpen), ("piOpen", piOpen), ("nestedPiOpen", nestedPiOpen),
    ("computedDocument", computedDocument), ("computedElementNamed", computedElementNamed),
    ("computedElement", computedElement), ("computedAttributeNamed", computedAttributeNamed),
    ("computedAttribute", computedAttribute), ("computedText", computedText),
    ("computedComment", computedComment), ("computedPiNamed", computedPiNamed),
    ("computedPi", computedPi), ("computedNamespaceNamed", computedNamespaceNamed),
    ("computedNamespace", computedNamespace)]

/-- Sequence types. -/
def typeRules : List (String × Rule) :=
  [("emptySequence", emptySequence), ("anyItem", anyItem), ("anyFunction", anyFunction),
    ("functionTest", functionTest), ("typeParenOpen", typeParenOpen), ("typeName", typeName),
    ("kindDocument", kindDocument), ("kindElement", kindElement), ("kindAttribute", kindAttribute),
    ("kindSchemaElement", kindSchemaElement), ("kindSchemaAttribute", kindSchemaAttribute),
    ("kindPi", kindPi), ("kindComment", kindComment), ("kindText", kindText),
    ("kindNamespaceNode", kindNamespaceNode), ("kindNode", kindNode),
    ("kindWildcard", kindWildcard), ("kindName", kindName), ("kindNcname", kindNcname),
    ("kindString", kindString), ("kindComma", kindComma), ("kindNillable", kindNillable),
    ("kindAs", kindAs), ("kindClose", kindClose), ("occursOptional", occursOptional),
    ("occursZeroOrMore", occursZeroOrMore), ("occursOneOrMore", occursOneOrMore)]

/-- Updates and scripts. -/
def updateRules : List (String × Rule) :=
  [("insertNode", insertNode), ("insertNodes", insertNodes), ("asFirstInto", asFirstInto),
    ("asLastInto", asLastInto), ("intoTarget", intoTarget), ("afterTarget", afterTarget),
    ("beforeTarget", beforeTarget), ("deleteNode", deleteNode), ("deleteNodes", deleteNodes),
    ("replaceValue", replaceValue), ("replaceNode", replaceNode),
    ("withReplacement", withReplacement), ("renameNode", renameNode), ("asName", asName),
    ("copyClause", copyClause), ("modifyClause", modifyClause), ("blockOpen", blockOpen),
    ("blockDeclare", blockDeclare), ("statementSeparator", statementSeparator),
    ("assignment", assignment), ("setVariable", setVariable), ("whileLoop", whileLoop),
    ("exitReturning", exitReturning), ("exitWith", exitWith), ("breakLoop", breakLoop),
    ("continueLoop", continueLoop)]

/-- Full-text searches. -/
def fullTextRules : List (String × Rule) :=
  [("ftContains", ftContains), ("containsText", containsText), ("ftOr", ftOr), ("ftAnd", ftAnd),
    ("notIn", notIn), ("ftNot", ftNot), ("ftWords", ftWords), ("ftGroupOpen", ftGroupOpen),
    ("anyWordMode", anyWordMode), ("anyMode", anyMode), ("allWordsMode", allWordsMode),
    ("allMode", allMode), ("phraseMode", phraseMode), ("occurs", occurs), ("times", times),
    ("exactlyBound", exactlyBound), ("atLeastBound", atLeastBound), ("atMostBound", atMostBound),
    ("fromBound", fromBound), ("toBound", toBound), ("ftOrdered", ftOrdered),
    ("ftWindow", ftWindow), ("distance", distance), ("wordsUnit", wordsUnit),
    ("sentencesUnit", sentencesUnit), ("paragraphsUnit", paragraphsUnit), ("sameUnit", sameUnit),
    ("differentUnit", differentUnit), ("sentenceUnit", sentenceUnit),
    ("paragraphUnit", paragraphUnit), ("atStart", atStart), ("atEnd", atEnd),
    ("entireContent", entireContent), ("weightOpen", weightOpen),
    ("withoutContent", withoutContent), ("usingOption", usingOption),
    ("caseInsensitive", caseInsensitive), ("caseSensitive", caseSensitive),
    ("lowercase", lowercase), ("uppercase", uppercase),
    ("diacriticsInsensitive", diacriticsInsensitive), ("diacriticsSensitive", diacriticsSensitive),
    ("stemmingOption", stemmingOption), ("noStemming", noStemming),
    ("wildcardsOption", wildcardsOption), ("noWildcards", noWildcards),
    ("languageOption", languageOption), ("ftExtensionOption", ftExtensionOption),
    ("noThesaurus", noThesaurus), ("thesaurusOption", thesaurusOption),
    ("noStopWords", noStopWords), ("stopWordsDefault", stopWordsDefault),
    ("stopWordsAt", stopWordsAt), ("stopWordsList", stopWordsList),
    ("stopWordsUnion", stopWordsUnion), ("stopWordsExcept", stopWordsExcept),
    ("ftListAt", ftListAt), ("ftListOpen", ftListOpen), ("ftListString", ftListString),
    ("ftListComma", ftListComma), ("ftListClose", ftListClose),
    ("thesaurusDefault", thesaurusDefault), ("thesaurusAt", thesaurusAt),
    ("thesaurusOpen", thesaurusOpen), ("thesaurusComma", thesaurusComma),
    ("thesaurusClose", thesaurusClose), ("relationship", relationship),
    ("exactlyLevels", exactlyLevels), ("atLeastLevels", atLeastLevels),
    ("atMostLevels", atMostLevels), ("fromToLevels", fromToLevels), ("levelsWord", levelsWord)]

/-- Every rule. -/
def named : List (String × Rule) :=
  moduleRules ++ operatorRules ++ pathRules ++ clauseRules ++
    constructorRules ++ typeRules ++ updateRules ++ fullTextRules

end XQuerySyntax.Terminal
