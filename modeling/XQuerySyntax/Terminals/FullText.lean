import XQuerySyntax.Terminals.Basic

/-!
Terminals of full-text selections, their match options and their positional filters.
-/

namespace XQuerySyntax.Terminal

/-! ### Full text -/

def ftContains : Rule := fullText "ftcontains" operator toExpression
def containsText : Rule := fullText "contains text" operator toExpression
def ftOr : Rule := fullText "ftor" operator toExpression
def ftAnd : Rule := fullText "ftand" operator toExpression
def notIn : Rule := fullText "not in" operator toExpression
def ftNot : Rule := fullText "ftnot" expression .stay
def ftWords : Rule := fullText "%S" expression toOperator
def ftGroupOpen : Rule := fullText "(" expression toExpression
def anyWordMode : Rule := fullText "any word" operator .stay
def anyMode : Rule := fullText "any" operator .stay
def allWordsMode : Rule := fullText "all words" operator .stay
def allMode : Rule := fullText "all" operator .stay
def phraseMode : Rule := fullText "phrase" operator .stay
def occurs : Rule := fullText "occurs" operator .stay
def times : Rule := fullText "times" operator .stay
def exactlyBound : Rule := fullText "exactly" operator toExpression
def atLeastBound : Rule := fullText "at least" operator toExpression
def atMostBound : Rule := fullText "at most" operator toExpression
def fromBound : Rule := fullText "from" operator toExpression
def toBound : Rule := fullText "to" operator toExpression
def ftOrdered : Rule := fullText "ordered" operator .stay
def ftWindow : Rule := fullText "window" operator toExpression
def distance : Rule := fullText "distance" operator .stay
def wordsUnit : Rule := fullText "words" operator .stay
def sentencesUnit : Rule := fullText "sentences" operator .stay
def paragraphsUnit : Rule := fullText "paragraphs" operator .stay
def sameUnit : Rule := fullText "same" operator .stay
def differentUnit : Rule := fullText "different" operator .stay
def sentenceUnit : Rule := fullText "sentence" operator .stay
def paragraphUnit : Rule := fullText "paragraph" operator .stay
def atStart : Rule := fullText "at start" operator .stay
def atEnd : Rule := fullText "at end" operator .stay
def entireContent : Rule := fullText "entire content" operator .stay
def weightOpen : Rule := fullText "weight %^\x7b" operator .stay
def withoutContent : Rule := fullText "without content" operator toExpression
def usingOption : Rule := fullText "using" operator .stay
def caseInsensitive : Rule := fullText "case insensitive" operator .stay
def caseSensitive : Rule := fullText "case sensitive" operator .stay
def lowercase : Rule := fullText "lowercase" operator .stay
def uppercase : Rule := fullText "uppercase" operator .stay
def diacriticsInsensitive : Rule := fullText "diacritics insensitive" operator .stay
def diacriticsSensitive : Rule := fullText "diacritics sensitive" operator .stay
def stemmingOption : Rule := fullText "stemming" operator .stay
def noStemming : Rule := fullText "no stemming" operator .stay
def wildcardsOption : Rule := fullText "wildcards" operator .stay
def noWildcards : Rule := fullText "no wildcards" operator .stay
def languageOption : Rule := fullText "language %S" operator .stay
def ftExtensionOption : Rule := fullText "option %Q %S" operator .stay
def noThesaurus : Rule := fullText "no thesaurus" operator .stay
def thesaurusOption : Rule := fullText "thesaurus" operator (.goto .thesaurus)
def noStopWords : Rule := fullText "no stop words" operator .stay
def stopWordsDefault : Rule := fullText "stop words default" operator .stay
def stopWordsAt : Rule := fullText "stop words at %S" operator .stay
def stopWordsList : Rule := fullText "stop words (" operator .stay
def stopWordsUnion : Rule := fullText "union" operator .stay
def stopWordsExcept : Rule := fullText "except" operator .stay
def ftListAt : Rule := fullText "at %S" operator .stay
def ftListOpen : Rule := fullText "(" operator .stay
def ftListString : Rule := fullText "%S" operator .stay
def ftListComma : Rule := fullText "," operator .stay
def ftListClose : Rule := fullText ")" operator .stay
def thesaurusDefault : Rule := fullText "default" thesaurus .stay
def thesaurusAt : Rule := fullText "at %S" thesaurus .stay
def thesaurusOpen : Rule := fullText "(" thesaurus .stay
def thesaurusComma : Rule := fullText "," thesaurus .stay
def thesaurusClose : Rule := fullText ")" thesaurus .stay
def relationship : Rule := fullText "relationship %S" thesaurus .stay
def exactlyLevels : Rule := fullText "exactly %D" thesaurus .stay
def atLeastLevels : Rule := fullText "at least %D" thesaurus .stay
def atMostLevels : Rule := fullText "at most %D" thesaurus .stay
def fromToLevels : Rule := fullText "from %D to %D" thesaurus .stay
def levelsWord : Rule := fullText "levels" thesaurus .stay

end XQuerySyntax.Terminal
