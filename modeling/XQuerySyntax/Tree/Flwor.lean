import XQuerySyntax.Tree.SequenceType

/-!
Queries made of clauses: variables that run over sequences and windows, conditions, grouping and
ordering. The type of the expressions inside is a parameter.
-/

namespace XQuerySyntax

/-- How a window moves. -/
inductive WindowKind where
  | tumbling
  | sliding
  deriving DecidableEq, Repr, Inhabited

/-- Where the empty sequence stands in an ordering. -/
inductive EmptyOrder where
  | greatest
  | least
  deriving DecidableEq, Repr, Inhabited

/-- The variables of a window condition. -/
structure WindowVars where
  current : Option QName
  positional : Option QName
  previous : Option QName
  next : Option QName
  deriving DecidableEq, Repr, Inhabited

/-- The variables that are there, in order. -/
def WindowVars.names (v : WindowVars) : List QName :=
  [v.current, v.positional, v.previous, v.next].filterMap id

/-- A variable that runs over a sequence. -/
structure ForBinding (ε : Type) where
  name : QName
  typeDecl : Option SequenceType
  allowingEmpty : Bool
  positional : Option QName
  score : Option QName
  source : ε
  offset : Nat

/-- A variable bound to a value, or to the full-text score of one. -/
structure LetBinding (ε : Type) where
  name : QName
  typeDecl : Option SequenceType
  score : Bool
  value : ε
  offset : Nat

/-- Where a window begins or ends. -/
structure WindowCondition (ε : Type) where
  /-- Windows without an end are left out; never so for the beginning. -/
  only : Bool
  names : WindowVars
  condition : ε

/-- A grouping key. -/
structure GroupingSpec (ε : Type) where
  name : QName
  value : Option ε
  collation : Option String

/-- An ordering key. -/
structure OrderSpec (ε : Type) where
  key : ε
  descending : Bool
  empty : Option EmptyOrder
  collation : Option String

/-- A clause. -/
inductive Clause (ε : Type) where
  | forEach (bindings : List (ForBinding ε))
  | letBe (bindings : List (LetBinding ε))
  | window (kind : WindowKind) (name : QName) (typeDecl : Option SequenceType) (source : ε)
      (start : WindowCondition ε) (finish : Option (WindowCondition ε))
  | count (name : QName)
  | filter (condition : ε)

/-- The keyword that a clause begins with, or the one that tells a window clause. -/
def Clause.keyword {ε : Type} : Clause ε → String
  | forEach _ => "for"
  | letBe _ => "let"
  | window .. => "window"
  | count _ => "count"
  | filter _ => "where"

/-- A query of clauses. The clauses before the grouping stand in source order, which is their order
of evaluation; a condition that ends them is held apart. The clauses behind the grouping see grouped
tuples. -/
structure Flwor (ε : Type) where
  clauses : List (Clause ε)
  condition : Option ε
  /-- The grouping keys; none if there is no grouping. -/
  groupBy : List (GroupingSpec ε)
  postGroup : List (Clause ε)
  /-- Equal keys keep the order of their tuples. -/
  stable : Bool
  /-- The ordering keys; none if there is no ordering. -/
  orderBy : List (OrderSpec ε)
  result : ε

end XQuerySyntax
