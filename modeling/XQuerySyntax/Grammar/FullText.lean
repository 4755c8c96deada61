import XQuerySyntax.Grammar.MatchOption
import XQuerySyntax.Grammar.Sequence

/-!
Full-text selections. Selections are joined by three connectives of increasing strength; a chain of
one connective is one node, and a single operand is itself. The numbers and the words of a selection
are expressions, which the grammar of operators supplies.
-/

namespace XQuerySyntax.Grammar

open XQuerySyntax.Parser

/-- A chain of operands; one operand alone is itself. -/
def ftChain (wrap : List (FtSelection Expr) → FtSelection Expr) :
    List (FtSelection Expr) → FtSelection Expr
  | [operand] => operand
  | operands => wrap operands

/-- A unit in which distances are counted. -/
def ftUnit : Parser FtUnit := do
  let unit ← eatFirst [(Terminal.wordsUnit, FtUnit.words), (Terminal.sentencesUnit, .sentences),
    (Terminal.paragraphsUnit, .paragraphs)]
  match unit with
  | some unit => return unit
  | none => unexpected "'words', 'sentences' or 'paragraphs'"

/-- A unit that matches may share. -/
def ftBigUnit : Parser FtBigUnit := do
  let unit ← eatFirst [(Terminal.sentenceUnit, FtBigUnit.sentence),
    (Terminal.paragraphUnit, .paragraph)]
  match unit with
  | some unit => return unit
  | none => unexpected "'sentence' or 'paragraph'"

/-- How the words of a search text are matched, any of them unless a mode is given. -/
def ftAnyAll : Parser FtAnyAll := do
  let mode ← eatFirst [(Terminal.anyWordMode, FtAnyAll.anyWord), (Terminal.anyMode, .any),
    (Terminal.allWordsMode, .allWords), (Terminal.allMode, .all), (Terminal.phraseMode, .phrase)]
  return mode.getD .any

variable (single additive : Parser Expr)

/-- A range of numbers. -/
def ftRange : Parser (FtRange Expr) := do
  if ← eat Terminal.exactlyBound then
    return .exactly (← additive)
  if ← eat Terminal.atLeastBound then
    return .atLeast (← additive)
  if ← eat Terminal.atMostBound then
    return .atMost (← additive)
  if ← eat Terminal.fromBound then
    let low ← additive
    expect Terminal.toBound
    return .fromTo low (← additive)
  unexpected "'exactly', 'at least', 'at most' or 'from'"

/-- A condition on positions, if there is one. -/
def ftPosFilter : Parser (Option (FtPosFilter Expr)) := do
  if ← eat Terminal.ftOrdered then
    return some .ordered
  if ← eat Terminal.ftWindow then
    let size ← additive
    return some (.window size (← ftUnit))
  if ← eat Terminal.distance then
    let range ← ftRange additive
    return some (.distance range (← ftUnit))
  if ← eat Terminal.sameUnit then
    return some (.scope true (← ftBigUnit))
  if ← eat Terminal.differentUnit then
    return some (.scope false (← ftBigUnit))
  eatFirst [(Terminal.atStart, FtPosFilter.atStart), (Terminal.atEnd, .atEnd),
    (Terminal.entireContent, .entireContent)]

/-- How often the words have to occur, if it is said. -/
def ftTimes : Parser (Option (FtRange Expr)) :=
  whenEats Terminal.occurs do
    let range ← ftRange additive
    expect Terminal.times
    return range

/-- The words of a search, written out or computed. -/
def ftWords : Parser (FtSelection Expr) := do
  if ← eat Terminal.ftWords then
    let text ← capturedString 0
    let mode ← ftAnyAll
    return .words text mode (← ftTimes additive)
  if ← eat Terminal.lbrace then
    let e ← expr single
    expect Terminal.rbrace
    let mode ← ftAnyAll
    return .computedWords e mode (← ftTimes additive)
  unexpected "a full-text selection"

variable (selection : Parser (FtSelection Expr))

/-- Words, a selection in parentheses, or one in braces behind pragmas. -/
def ftPrimary : Parser (FtSelection Expr) := do
  if ← peek Terminal.pragmaOpen then
    let (ps, _) ← pragmas
    expect Terminal.lbrace
    if ← eat Terminal.rbrace then
      return .extension ps none
    let inner ← selection
    expect Terminal.rbrace
    return .extension ps (some inner)
  if ← eat Terminal.ftGroupOpen then
    let inner ← selection
    expect Terminal.rparen
    return inner
  ftWords single additive

/-- A primary selection with its match options and its weight. -/
def ftPrimaryWithOptions : Parser (FtSelection Expr) := do
  let primary ← ftPrimary single additive selection
  let options ← matchOptions
  let weight ← whenEats Terminal.weightOpen (bracedExpr single)
  if options.isEmpty && weight.isNone then
    return primary
  return .withOptions primary options weight

/-- A primary selection, or what is left when its matches are excluded. -/
def ftUnaryNot : Parser (FtSelection Expr) := do
  if ← eat Terminal.ftNot then
    return .not (← ftPrimaryWithOptions single additive selection)
  ftPrimaryWithOptions single additive selection

/-- Selections joined by the strongest connective. -/
def ftMildNot : Parser (FtSelection Expr) :=
  ftChain .mildNot <$> separatedBy Terminal.notIn (ftUnaryNot single additive selection)

/-- Selections joined by conjunction. -/
def ftAnd : Parser (FtSelection Expr) :=
  ftChain .and <$> separatedBy Terminal.ftAnd (ftMildNot single additive selection)

/-- Selections joined by disjunction. -/
def ftOr : Parser (FtSelection Expr) :=
  ftChain .or <$> separatedBy Terminal.ftOr (ftAnd single additive selection)

/-- A selection with its conditions on positions. -/
def ftFiltered : Parser (FtSelection Expr) := do
  let inner ← ftOr single additive selection
  match ← many (ftPosFilter additive) with
  | [] => return inner
  | filters => return .positional inner filters

/-- A selection, with at most so many selections inside one another. -/
def ftSelectionWithin : Nat → Parser (FtSelection Expr)
  | 0 => exhausted
  | n + 1 => nested (ftFiltered single additive (ftSelectionWithin n))

/-- A selection. -/
def ftSelection : Parser (FtSelection Expr) := do
  ftSelectionWithin single additive (← get).steps

end XQuerySyntax.Grammar
