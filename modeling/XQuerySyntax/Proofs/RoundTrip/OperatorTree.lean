import XQuerySyntax.Proofs.RoundTrip.Lexeme
import XQuerySyntax.Static.Context

/-! Operator expressions and how they are printed. An operand is put in parentheses exactly where it
binds less tightly than its place asks for; between two tokens there is space of any kind. -/

namespace XQuerySyntax

/-! ### Layers -/

/-- The layers of expressions, from the tightest to the loosest. -/
inductive Layer where
  | primary
  | unary
  | intersect
  | union
  | multiplicative
  | additive
  | range
  | comparison
  | and
  | or
  | single
  | sequence
  deriving DecidableEq, Repr, Inhabited

namespace Layer

/-- How loosely a layer binds. -/
def rank : Layer → Nat
  | primary => 0
  | unary => 1
  | intersect => 2
  | union => 3
  | multiplicative => 4
  | additive => 5
  | range => 6
  | comparison => 7
  | and => 8
  | or => 9
  | single => 10
  | sequence => 11

/-- The next tighter layer. -/
def tighter : Layer → Layer
  | primary | unary => primary
  | intersect => unary
  | union => intersect
  | multiplicative => union
  | additive => multiplicative
  | range => additive
  | comparison => range
  | and => comparison
  | or => and
  | single => or
  | sequence => single

/-- The layer that the left operand of an operator has to be of, or of a tighter one: the same, since
operators associate to the left, but comparisons and ranges do not associate. -/
def left (layer : Layer) : Layer :=
  if layer = comparison ∨ layer = range then layer.tighter else layer

theorem rank_inj {layer layer' : Layer} (h : layer.rank = layer'.rank) : layer = layer' := by
  cases layer <;> cases layer' <;> first
    | rfl
    | cases h

theorem rank_le_sequence (layer : Layer) : layer.rank ≤ sequence.rank := by
  cases layer <;> decide

theorem left_rank_le (layer : Layer) : layer.left.rank ≤ layer.rank := by
  cases layer <;> decide

end Layer

/-- The layer of an operator. -/
def BinaryOperator.layer : BinaryOperator → Layer
  | .or => .or
  | .and => .and
  | .equals | .notEquals | .lessThan | .lessThanOrEqual | .greaterThan | .greaterThanOrEqual
  | .valueEq | .valueNe | .valueLt | .valueLe | .valueGt | .valueGe | .is | .precedes
  | .follows => .comparison
  | .plus | .minus => .additive
  | .multiply | .divide | .integerDivide | .modulo => .multiplicative
  | .union => .union
  | .intersect | .except => .intersect

/-! ### Trees -/

/-- A simple name. -/
structure SimpleName where
  chars : List Char
  isName : isName chars

namespace SimpleName

/-- The name as it stands in a tree. -/
def text (n : SimpleName) : String := String.ofList n.chars

end SimpleName

/-- Operator expressions. -/
inductive OperatorTree where
  | varRef (name : SimpleName)
  | integer (value : Nat) (h : value ≤ Numeral.maxInteger)
  | string (value : String)
  /-- A step to the children of a name. -/
  | step (name : SimpleName)
  | binary (op : BinaryOperator) (left right : OperatorTree)
  | unary (op : UnaryOperator) (operand : OperatorTree)
  | range (first last : OperatorTree)
  | conditional (condition yes no : OperatorTree)
  /-- A call of a local function. -/
  | call (name : SimpleName) (args : List OperatorTree)
  | empty
  /-- At least two expressions with commas between them. -/
  | sequence (first second : OperatorTree) (rest : List OperatorTree)

namespace OperatorTree

/-- The layer of the outermost operator. -/
def layer : OperatorTree → Layer
  | varRef _ | integer .. | string _ | step _ | call .. | empty => .primary
  | unary .. => .unary
  | binary op .. => op.layer
  | range .. => .range
  | conditional .. => .single
  | sequence .. => .sequence

mutual

/-- The parsed expression is the tree, in a module and with the namespaces of a context; where its
nodes begin is left open. -/
def Denotes (context : StaticContext) (module : ModuleId) : OperatorTree → Expr → Prop
  | varRef n, e => ∃ offset, e = .mk (.varRef ⟨none, n.text, none⟩) offset module
  | integer value _, e => ∃ offset, e = .mk (.literal (.integer value)) offset module
  | string value, e => ∃ offset, e = .mk (.literal (.string value)) offset module
  | step n, e => ∃ offset offset', e =
      .mk (.path .relative
        [.mk (.step .child (.name (.name ⟨none, n.text, context.elementNamespace?⟩)) []) offset'
          module]) offset module
  | binary op l r, e => ∃ offset left right, e = .mk (.binary op left right) offset module ∧
      Denotes context module l left ∧ Denotes context module r right
  | unary op t, e => ∃ offset operand, e = .mk (.unary op operand) offset module ∧
      Denotes context module t operand
  | range l r, e => ∃ offset first last, e = .mk (.range first last) offset module ∧
      Denotes context module l first ∧ Denotes context module r last
  | conditional c y n, e => ∃ offset condition yes no,
      e = .mk (.ifThenElse condition yes no) offset module ∧ Denotes context module c condition ∧
        Denotes context module y yes ∧ Denotes context module n no
  | call n ts, e => ∃ offset args,
      e = .mk (.functionCall ⟨some "local", n.text, context.resolve? "local"⟩ args) offset module ∧
        DenotesAll context module ts args
  | empty, e => ∃ offset, e = .mk (.sequence []) offset module
  | sequence t₁ t₂ ts, e => ∃ offset first second rest,
      e = .mk (.sequence (first :: second :: rest)) offset module ∧
        Denotes context module t₁ first ∧ Denotes context module t₂ second ∧
          DenotesAll context module ts rest

/-- The parsed expressions are the trees, one by one. -/
def DenotesAll (context : StaticContext) (module : ModuleId) :
    List OperatorTree → List Expr → Prop
  | [], es => es = []
  | t :: ts, es => ∃ e rest, es = e :: rest ∧ Denotes context module t e ∧
      DenotesAll context module ts rest

end

end OperatorTree

/-! ### Tokens -/

/-- The tokens of operator expressions. -/
inductive Token where
  | varRef (name : SimpleName)
  | integer (value : Nat)
  | string (value : String)
  | name (name : SimpleName)
  | localName (name : SimpleName)
  | operator (op : BinaryOperator)
  | sign (op : UnaryOperator)
  | toWord
  | ifWord
  | thenWord
  | elseWord
  | opening
  | closing
  | comma

/-- How an operator may be written. -/
def BinaryOperator.spellings : BinaryOperator → List String
  | .or => ["or"]
  | .and => ["and"]
  | .equals => ["="]
  | .notEquals => ["!="]
  | .lessThan => ["<"]
  | .lessThanOrEqual => ["<="]
  | .greaterThan => [">"]
  | .greaterThanOrEqual => [">="]
  | .valueEq => ["eq"]
  | .valueNe => ["ne"]
  | .valueLt => ["lt"]
  | .valueLe => ["le"]
  | .valueGt => ["gt"]
  | .valueGe => ["ge"]
  | .is => ["is"]
  | .precedes => ["<<"]
  | .follows => [">>"]
  | .plus => ["+"]
  | .minus => ["-"]
  | .multiply => ["*"]
  | .divide => ["div"]
  | .integerDivide => ["idiv"]
  | .modulo => ["mod"]
  | .union => ["union", "|"]
  | .intersect => ["intersect"]
  | .except => ["except"]

namespace Token

/-- How a token with a fixed spelling may be written. -/
def spellings : Token → List String
  | operator op => op.spellings
  | sign .plus => ["+"]
  | sign .minus => ["-"]
  | toWord => ["to"]
  | ifWord => ["if"]
  | thenWord => ["then"]
  | elseWord => ["else"]
  | opening => ["("]
  | closing => [")"]
  | comma => [","]
  | _ => []

/-- The text is the token. -/
def Spells : Token → List Char → Prop
  | varRef n, text => ∃ space, Trivia space ∧ text = '$' :: (space ++ n.chars)
  | integer value, text => text ≠ [] ∧ (∀ c ∈ text, c.isDigit) ∧ Decimal.ofDigits text = value
  | string value, text => ∃ quote body, (quote = '"' ∨ quote = '\'') ∧
      StringBody quote value.toList body ∧ text = quote :: (body ++ [quote])
  | name n, text => text = n.chars
  | localName n, text => text = "local:".toList ++ n.chars
  | token, text => ∃ spelling ∈ token.spellings, text = spelling.toList

end Token

/-- The text is the tokens and then `rest`, with space in front of every token. -/
inductive Spread : List Token → List Char → List Char → Prop where
  | nil (rest : List Char) : Spread [] rest rest
  | cons {token : Token} {tokens : List Token} {space chars text rest : List Char}
      (hspace : Trivia space) (hne : space ≠ []) (hchars : token.Spells chars)
      (htext : Spread tokens text rest) : Spread (token :: tokens) (space ++ (chars ++ text)) rest

/-- The text is the tokens, of which there is at least one, and then `rest`, with space between every
two tokens. -/
def Written : List Token → List Char → List Char → Prop
  | [], _, _ => False
  | token :: tokens, text, rest => ∃ space chars text', text = space ++ (chars ++ text') ∧
      Trivia space ∧ token.Spells chars ∧ Spread tokens text' rest

/-! ### Printing -/

namespace OperatorTree

/-- The tokens of an operand in its place, given those of the operand alone. -/
def inPlace (place layer : Layer) (tokens : List Token) : List Token :=
  if layer.rank ≤ place.rank then tokens else .opening :: (tokens ++ [.closing])

mutual

/-- The tokens of an expression, without parentheses around it. -/
def tokens : OperatorTree → List Token
  | varRef n => [.varRef n]
  | integer value _ => [.integer value]
  | string value => [.string value]
  | step n => [.name n]
  | binary op l r =>
    inPlace op.layer.left l.layer l.tokens ++
      .operator op :: inPlace op.layer.tighter r.layer r.tokens
  | unary op t => .sign op :: inPlace .unary t.layer t.tokens
  | range l r =>
    inPlace .additive l.layer l.tokens ++ .toWord :: inPlace .additive r.layer r.tokens
  | conditional c y n =>
    .ifWord :: .opening :: (c.tokens ++ .closing :: .thenWord :: (inPlace .single y.layer y.tokens ++
      .elseWord :: inPlace .single n.layer n.tokens))
  | call n [] => [.localName n, .opening, .closing]
  | call n (t :: ts) =>
    .localName n :: .opening :: (inPlace .single t.layer t.tokens ++ (furtherTokens ts ++ [.closing]))
  | empty => [.opening, .closing]
  | sequence t₁ t₂ ts =>
    inPlace .single t₁.layer t₁.tokens ++
      .comma :: (inPlace .single t₂.layer t₂.tokens ++ furtherTokens ts)

/-- The tokens of expressions with a comma in front of each. -/
def furtherTokens : List OperatorTree → List Token
  | [] => []
  | t :: ts => .comma :: (inPlace .single t.layer t.tokens ++ furtherTokens ts)

end

/-- The tokens of an expression in a place. -/
def tokensAt (place : Layer) (t : OperatorTree) : List Token :=
  inPlace place t.layer t.tokens

/-- The largest number of single expressions open at a time in an expression that stands alone, or
in parentheses, given the number inside it. -/
def openAlone (layer : Layer) (inner : Nat) : Nat :=
  if layer = .sequence then inner else inner + 1

/-- The largest number of single expressions open at a time in an operand in its place, given the
number inside it. -/
def openInPlace (place layer : Layer) (inner : Nat) : Nat :=
  if place = .single then inner + 1
  else if place ≠ .sequence ∧ layer.rank ≤ place.rank then inner
  else openAlone layer inner

mutual

/-- The largest number of single expressions open at a time inside an expression, without the one
that it is itself or is the outermost part of. -/
def inner : OperatorTree → Nat
  | varRef _ | integer .. | string _ | step _ | empty => 0
  | binary op l r =>
    max (openInPlace op.layer.left l.layer l.inner) (openInPlace op.layer.tighter r.layer r.inner)
  | unary _ t => openInPlace .unary t.layer t.inner
  | range l r => max (openInPlace .additive l.layer l.inner) (openInPlace .additive r.layer r.inner)
  | conditional c y n =>
    max (openAlone c.layer c.inner)
      (max (openInPlace .single y.layer y.inner) (openInPlace .single n.layer n.inner))
  | call _ ts => innerOfItems ts
  | sequence t₁ t₂ ts =>
    max (openInPlace .single t₁.layer t₁.inner)
      (max (openInPlace .single t₂.layer t₂.inner) (innerOfItems ts))

/-- The largest number of single expressions open at a time in a list of them. -/
def innerOfItems : List OperatorTree → Nat
  | [] => 0
  | t :: ts => max (openInPlace .single t.layer t.inner) (innerOfItems ts)

end

/-- The largest number of single expressions open at a time in an expression in a place. -/
def openAt (place : Layer) (t : OperatorTree) : Nat :=
  openInPlace place t.layer t.inner

/-- The number of single expressions that are open at the same time in the printed expression. -/
def openSingles (t : OperatorTree) : Nat := t.openAt .sequence

/-- The text prints the expression, with space of any kind between its tokens, and perhaps in front
of the first and behind the last. -/
def Prints (t : OperatorTree) (text : List Char) : Prop :=
  ∃ space, Trivia space ∧ Written t.tokens text space

end OperatorTree

end XQuerySyntax
