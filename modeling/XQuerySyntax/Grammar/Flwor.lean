import XQuerySyntax.Grammar.Sequence
import XQuerySyntax.Grammar.SequenceType
import XQuerySyntax.Terminals.Expr

/-!
Queries made of clauses. Clauses may come in any order after the first; a condition that ends those
before the grouping is held apart from them. A grouping key without a value has to be a variable
bound before.
-/

namespace XQuerySyntax

/-- The variables of a clause. -/
def Clause.boundNames {ε : Type} : Clause ε → List ExpandedName
  | .forEach bindings => bindings.flatMap fun b =>
      b.name.expanded :: (b.positional.toList ++ b.score.toList).map QName.expanded
  | .letBe bindings => bindings.map fun b => b.name.expanded
  | .window _ name _ _ start finish =>
      (name :: start.names.names ++ finish.toList.flatMap (·.names.names)).map QName.expanded
  | .count name => [name.expanded]
  | .filter _ => []

/-- Takes a condition off the end of a list of clauses. -/
def Clause.splitCondition {ε : Type} (clauses : List (Clause ε)) : List (Clause ε) × Option ε :=
  match clauses.getLast? with
  | some (.filter condition) => (clauses.dropLast, some condition)
  | _ => (clauses, none)

/-- The names that stand for one seen before. -/
def QName.repeated (seen : List ExpandedName) : List QName → List QName
  | [] => []
  | n :: names =>
    if seen.contains n.expanded then n :: repeated seen names
    else repeated (n.expanded :: seen) names

namespace Grammar

open XQuerySyntax.Parser

variable (single : Parser Expr)

/-- A positional variable, which must differ from the variable that it counts. -/
def positionalVariable (name : QName) : Parser QName := do
  let offset ← nextOffset
  let positional ← variableName
  if positional.expanded = name.expanded then
    record .positionalVariableConflict offset
      ("positional variable $" ++ name.text ++ " has the same name as its binding")
  return positional

/-- A variable that runs over a sequence. -/
def forBinding : Parser (ForBinding Expr) := do
  let offset ← nextOffset
  let (name, typeDecl) ← typedVariable
  let allowingEmpty ← eat Terminal.allowingEmpty
  let positional ← whenEats Terminal.atVariable (positionalVariable name)
  let score ← whenEats Terminal.scoreVariable variableName
  expect Terminal.inSource
  let source ← single
  return { name, typeDecl, allowingEmpty, positional, score, source, offset }

/-- A variable bound to a value, or without a type to a score. -/
def letBinding (score : Bool) : Parser (LetBinding Expr) := do
  let offset ← nextOffset
  let (name, typeDecl) ← if score then (·, none) <$> variableName else typedVariable
  expect Terminal.assign
  let value ← single
  return { name, typeDecl, score, value, offset }

/-- Bindings of a clause, of which only the first may take a score. -/
def letBindings (score : Bool) : Parser (Clause Expr) := do
  let first ← letBinding single score
  return .letBe (first :: (← many (whenEats Terminal.comma (letBinding single false))))

/-- Where a window begins or ends. -/
def windowCondition (only : Bool) : Parser (WindowCondition Expr) := do
  let current ← if ← peek Terminal.variableReference then some <$> variableName else pure none
  let positional ← whenEats Terminal.windowAt variableName
  let previous ← whenEats Terminal.windowPrevious variableName
  let next ← whenEats Terminal.windowNext variableName
  expect Terminal.whenCondition
  let condition ← single
  return { only, names := { current, positional, previous, next }, condition }

/-- The end of a window, which a sliding window must have. -/
def windowEnd (kind : WindowKind) : Parser (Option (WindowCondition Expr)) := do
  if ← eat Terminal.windowOnlyEnd then
    return some (← windowCondition single true)
  if ← eat Terminal.windowEnd then
    return some (← windowCondition single false)
  if kind = .sliding then
    unexpected "'end' of sliding window"
  return none

/-- A window clause, whose variables must all differ. -/
def windowClause (kind : WindowKind) : Parser (Clause Expr) := do
  let offset ← nextOffset
  let (name, typeDecl) ← typedVariable
  expect Terminal.inSource
  let source ← single
  expect Terminal.windowStart
  let first ← windowCondition single false
  let last ← windowEnd single kind
  for n in QName.repeated [] (name :: first.names.names ++ last.toList.flatMap (·.names.names)) do
    record .duplicateWindowVariable offset
      ("window variable $" ++ n.text ++ " is bound more than once")
  return .window kind name typeDecl source first last

/-- A clause that a query may begin with. -/
def initialClause : Parser (Option (Clause Expr)) := do
  if ← eat Terminal.forTumbling then
    return some (← windowClause single .tumbling)
  if ← eat Terminal.forSliding then
    return some (← windowClause single .sliding)
  if ← eat Terminal.forClause then
    return some (.forEach (← separatedBy Terminal.comma (forBinding single)))
  if ← eat Terminal.letScore then
    return some (← letBindings single true)
  if ← eat Terminal.letClause then
    return some (← letBindings single false)
  return none

/-- A clause other than a grouping. -/
def clause : Parser (Option (Clause Expr)) := do
  if let some c ← initialClause single then
    return some c
  if ← eat Terminal.whereClause then
    return some (.filter (← single))
  if ← eat Terminal.countClause then
    return some (.count (← variableName))
  return none

/-- A collation, if one is named. -/
def collation : Parser (Option String) := do
  whenEats Terminal.collation (capturedString 0)

/-- A grouping key. -/
def groupingSpec (bound : List ExpandedName) : Parser (GroupingSpec Expr) := do
  let offset ← nextOffset
  let name ← variableName
  let value ← whenEats Terminal.assign single
  if value.isNone && !bound.contains name.expanded then
    record .groupingVariableNotInScope offset
      ("grouping variable $" ++ name.text ++ " is not bound by this FLWOR expression")
  return { name, value, collation := ← collation }

/-- An ordering key. -/
def orderSpec : Parser (OrderSpec Expr) := do
  let key ← single
  let direction ← eatFirst [(Terminal.descending, true), (Terminal.ascending, false)]
  let empty ← eatFirst [(Terminal.emptyGreatest, EmptyOrder.greatest),
    (Terminal.emptyLeast, .least)]
  return { key, descending := direction.getD false, empty, collation := ← collation }

/-- An ordering, if there is one: whether it is stable, and its keys. -/
def ordering : Parser (Bool × List (OrderSpec Expr)) := do
  let stable ← eatFirst [(Terminal.stableOrderBy, true), (Terminal.orderBy, false)]
  match stable with
  | none => return (false, [])
  | some stable => return (stable, ← separatedBy Terminal.comma (orderSpec single))

/-- The clauses behind the grouping. A second grouping is an error. -/
def postGroupClause : Parser (Option (Clause Expr)) := do
  if let some c ← clause single then
    return some c
  if ← eat Terminal.groupBy then
    fatal .malformed (← start) "only one 'group by' clause is supported"
  return none

/-- A query of clauses, if one begins here. -/
def flwor : Parser (Option Expr) := do
  let offset ← nextOffset
  match ← initialClause single with
  | none => return none
  | some first =>
    -- A condition at the end of these clauses is the condition of the query.
    let (clauses, condition) := Clause.splitCondition (first :: (← many (clause single)))
    let grouped ← eat Terminal.groupBy
    let groupBy ←
      if grouped then
        separatedBy Terminal.comma (groupingSpec single (clauses.flatMap Clause.boundNames))
      else pure []
    let postGroup ← if grouped then many (postGroupClause single) else pure []
    let (stable, orderBy) ← ordering single
    expect Terminal.returnClause
    let result ← single
    return some (← node (.flwor
      { clauses, condition, groupBy, postGroup, stable, orderBy, result }) offset)

end Grammar

end XQuerySyntax
