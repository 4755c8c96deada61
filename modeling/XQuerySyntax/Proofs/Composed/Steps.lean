import XQuerySyntax.Grammar.Parser
import XQuerySyntax.Proofs.Order.Position

/-! What parsers of expressions are put together from. They scan, they stop, they look namespaces up and
bind them in frames, and they record errors of a few kinds; what they do in a state follows by induction
from what these steps do in it. -/

namespace XQuerySyntax

/-- The errors that are recorded in expressions and types, wherever these stand. -/
def ErrorCode.isInner : ErrorCode → Bool
  | unknownPrefix | reservedNamespace | namespaceAttributeNotLiteral | duplicateNamespaceAttribute
  | emptyNamespaceUri | duplicateAttribute | duplicateMatchOption | duplicateAnnotations
  | duplicateParameter | positionalVariableConflict | duplicateWindowVariable
  | groupingVariableNotInScope => true
  | _ => false

/-- What expressions ask a static context for. -/
def StaticContext.lookups (c : StaticContext) :
    (String → Option String) × Option String × Option String × BoundarySpace :=
  (c.resolve?, c.elementNamespace?, c.functionNamespace?, c.boundarySpace)

namespace Parser

variable {α β σ : Type}

/-- Parsers that are put together from steps of the kinds that expressions take. The parser has come past
the given places, and behind a mark it has only matched rules since the mark. -/
inductive Composed : {α : Type} → (Nat → Prop) → Option Matcher.Mark → Parser α → Prop
  | pure {α : Type} {K : Nat → Prop} {mark : Option Matcher.Mark} (a : α) : Composed K mark (pure a)
  | bind {α β : Type} {K : Nat → Prop} {p : Parser α} {next : α → Parser β} (h : Composed K none p)
      (hn : ∀ a, Composed K none (next a)) : Composed K none (p >>= next)
  | stop {α : Type} {K : Nat → Prop} (d : Diagnostic) : Composed K none (Parser.stop d : Parser α)
  | exhausted {α : Type} {K : Nat → Prop} : Composed K none (Parser.exhausted : Parser α)
  /-- Reading what never changes. -/
  | ask {α : Type} {K : Nat → Prop} {next : Nat → ModuleId → Parser α}
      (h : ∀ steps id, Composed K none (next steps id)) :
      Composed K none (get >>= fun s => next s.steps s.module)
  | observe {α : Type} {K : Nat → Prop} (f : Matcher → α) {there : Matcher → Bool} :
      Composed K none (Parser.observe f there)
  | eat {K : Nat → Prop} (r : Rule) : Composed K none (Parser.eat r)
  | peek {K : Nat → Prop} (r : Rule) : Composed K none (Parser.peek r)
  | lexeme {α : Type} {K : Nat → Prop} {scanner : List Char → Scanned α}
      (h : ∀ text, (scanner text).Within text) : Composed K none (Parser.lexeme scanner)
  | atEnd {K : Nat → Prop} : Composed K none Parser.atEnd
  | goto {K : Nat → Prop} (state : LexicalState) : Composed K none (Parser.goto state)
  | nested {α : Type} {K : Nat → Prop} {p : Parser α} (h : Composed K none p) :
      Composed K none (Parser.nested p)
  | consult {α : Type} {K : Nat → Prop} {f : StaticContext → α}
      (h : ∀ c c', c'.lookups = c.lookups → f c' = f c) : Composed K none (Parser.consult f)
  | bindNamespace {K : Nat → Prop} (qualifier uri : String) :
      Composed K none (amend (·.bind qualifier uri))
  | pushFrame {K : Nat → Prop} : Composed K none (amend StaticContext.pushFrame)
  | popFrame {K : Nat → Prop} : Composed K none (amend StaticContext.popFrame)
  | record {K : Nat → Prop} {code : ErrorCode} (h : code.isInner) (offset : Nat) (message : String) :
      Composed K none (Parser.record code offset message)
  /-- A malformed part that can be passed over, at a place in front of the matcher. -/
  | recordMalformed {K : Nat → Prop} {offset : Nat} (h : K offset) (message : String) :
      Composed K none (Parser.record .malformed offset message)
  /-- Behind a token that begins with a visible character the parser has come past its place. -/
  | ifTook {α : Type} {K : Nat → Prop} {r : Rule} (hr : r.isVisible = true) {yes : Nat → Parser α}
      {no : Parser α} (hy : ∀ offset, Composed (fun o => o = offset ∨ K o) none (yes offset))
      (hn : Composed K none no) :
      Composed K none (Parser.eat r >>= fun matched => if matched then start >>= yes else no)
  | mark {α : Type} {K : Nat → Prop} {next : Matcher.Mark → Parser α}
      (h : ∀ place, Composed K (some place) (next place)) : Composed K none (Parser.mark >>= next)
  | tryFirst {α β : Type} {K : Nat → Prop} {place : Matcher.Mark} (table : List (Rule × α))
      {next : Option α → Parser β} (h : ∀ found, Composed K (some place) (next found)) :
      Composed K (some place) (eatFirst table >>= next)
  | tryEat {α : Type} {K : Nat → Prop} {place : Matcher.Mark} {r : Rule} {yes no : Parser α}
      (hy : Composed K (some place) yes) (hn : Composed K (some place) no) :
      Composed K (some place) (Parser.eat r >>= fun matched => if matched then yes else no)
  | restore {α : Type} {K : Nat → Prop} {place : Matcher.Mark} {p : Parser α} (h : Composed K none p) :
      Composed K (some place) (Parser.restore place >>= fun _ => p)
  | forget {α : Type} {K : Nat → Prop} {place : Matcher.Mark} {p : Parser α} (h : Composed K none p) :
      Composed K (some place) p

/-- Composed wherever it begins. -/
def Plain (p : Parser α) : Prop := ∀ K, Composed K none p

variable {p : Parser α} {next : α → Parser β} {K : Nat → Prop} {r : Rule}

/-! ### Composition -/

theorem plain_pure (a : α) : Plain (pure a : Parser α) := fun _ => .pure a

theorem Plain.seq (h : Plain p) (hn : ∀ a, Plain (next a)) : Plain (p >>= next) :=
  fun K => .bind (h K) fun a => hn a K

theorem plain_map (f : α → β) (h : Plain p) : Plain (f <$> p) := by
  rw [map_eq_pure_bind]
  exact h.seq fun _ => plain_pure _

theorem plain_ite {c : Prop} [Decidable c] {no : Parser α} (hy : Plain p) (hn : Plain no) :
    Plain (if c then p else no) := by
  split
  · exact hy
  · exact hn

theorem Plain.some (h : Plain p) : Plain (do return some (← p)) := h.seq fun _ => plain_pure _

theorem plain_fatal (code : ErrorCode) (offset : Nat) (message : String) :
    Plain (fatal code offset message : Parser α) := fun _ => .stop _

theorem plain_exhausted : Plain (exhausted : Parser α) := fun _ => .exhausted

theorem plain_steps (next : Nat → Parser α) (h : ∀ steps, Plain (next steps)) :
    Plain (do next (← get).steps) := fun K => .ask fun steps _ => h steps K

theorem plain_observe (f : Matcher → α) {there : Matcher → Bool} : Plain (observe f there) :=
  fun _ => .observe f

theorem plain_node (kind : ExprKind Expr) (offset : Nat) : Plain (node kind offset) :=
  fun _ => .ask fun _ id => .pure (Expr.mk kind offset id)

theorem plain_record {code : ErrorCode} (h : code.isInner) (offset : Nat) (message : String) :
    Plain (record code offset message) := fun _ => .record h offset message

theorem plain_goto (state : LexicalState) : Plain (goto state) := fun _ => .goto state

theorem plain_nested (h : Plain p) : Plain (nested p) := fun K => .nested (h K)

theorem plain_unexpected (expected : String) : Plain (unexpected expected : Parser α) :=
  (plain_observe id).seq fun _ => plain_fatal _ _ _

/-! ### Rules -/

theorem plain_eat (r : Rule) : Plain (eat r) := fun _ => .eat r

theorem plain_peek (r : Rule) : Plain (peek r) := fun _ => .peek r

theorem plain_ifEat {yes no : Parser α} (hy : Plain yes) (hn : Plain no) :
    Plain (eat r >>= fun matched => if matched then yes else no) :=
  (plain_eat r).seq fun _ => plain_ite hy hn

theorem plain_ifPeek {yes no : Parser α} (hy : Plain yes) (hn : Plain no) :
    Plain (peek r >>= fun matched => if matched then yes else no) :=
  (plain_peek r).seq fun _ => plain_ite hy hn

theorem plain_expect (r : Rule) : Plain (expect r) :=
  (plain_eat r).seq fun _ => plain_ite (plain_unexpected _) (plain_pure ())

theorem plain_whenEats (h : Plain p) : Plain (whenEats r p) := plain_ifEat h.some (plain_pure none)

theorem plain_eatFirst (table : List (Rule × α)) : Plain (eatFirst table) := by
  induction table with
  | nil => exact plain_pure none
  | cons entry rest ih => exact plain_ifEat (plain_pure _) ih

/-! ### Loops -/

theorem plain_many {p : Parser (Option α)} (h : Plain p) : Plain (many p) := by
  refine plain_steps (manyWithin p) fun steps => ?_
  induction steps with
  | zero => exact plain_exhausted
  | succ steps ih =>
    refine h.seq ?_
    rintro (_ | a)
    · exact plain_pure []
    · exact ih.seq fun _ => plain_pure _

theorem plain_separatedBy (h : Plain p) : Plain (separatedBy r p) :=
  h.seq fun _ => (plain_many (plain_whenEats h)).seq fun _ => plain_pure _

theorem plain_iterate {step : σ → Parser (σ ⊕ α)} (h : ∀ a, Plain (step a)) (init : σ) :
    Plain (iterate step init) := by
  refine plain_steps (iterateWithin step · init) fun steps => ?_
  induction steps generalizing init with
  | zero => exact plain_exhausted
  | succ steps ih =>
    refine (h init).seq ?_
    rintro (next | result)
    · exact ih next
    · exact plain_pure result

theorem plain_forIn {body : α → Parser PUnit} (h : ∀ x, Plain (body x)) (xs : List α) :
    Plain (forIn xs PUnit.unit fun x _ => do
      body x
      return ForInStep.yield PUnit.unit) := by
  induction xs with
  | nil => exact plain_pure _
  | cons x xs ih =>
    rw [List.forIn_cons, bind_assoc]
    exact (h x).seq fun _ => ih

end Parser

end XQuerySyntax
