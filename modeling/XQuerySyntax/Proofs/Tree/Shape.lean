import XQuerySyntax.Proofs.Boundary
import Mathlib.Data.List.Chain
import XQuerySyntax.Proofs.Tree.Contents

/-! Well-formed trees. The types of the tree allow more than the grammar makes: lists that are never
empty, steps that stand only in paths, texts that are never next to each other. What the grammar keeps
to is said here, node by node. -/

namespace XQuerySyntax

variable {ε : Type}

/-! ### Types -/

/-- Only an element may be tested for inside a document test. -/
def KindTest.WellFormed : KindTest → Prop
  | .document (some root) =>
    match root with
    | .element .. | .schemaElement _ => True
    | _ => False
  | _ => True

/-- A kind test on a node is well-formed; any name test is. -/
def NodeTest.WellFormed : NodeTest → Prop
  | .kind test => test.WellFormed
  | .name _ => True

mutual

/-- The type of the empty sequence stands alone and has no occurrence indicator. -/
inductive SequenceType.WellFormed : SequenceType → Prop
  | empty : SequenceType.WellFormed (.single .emptySequence)
  | items {itemType : ItemType} (occurrence : Occurrence) (h : itemType.WellFormed) :
    SequenceType.WellFormed (.mk itemType occurrence)

/-- An item type other than that of the empty sequence. -/
inductive ItemType.WellFormed : ItemType → Prop
  | item : ItemType.WellFormed .item
  | atomicOrUnion (name : QName) : ItemType.WellFormed (.atomicOrUnion name)
  | kindTest {test : KindTest} (h : test.WellFormed) : ItemType.WellFormed (.kindTest test)
  | anyFunction : ItemType.WellFormed .anyFunction
  | functionTest {params : List SequenceType} {returnType : SequenceType}
    (hp : ∀ p ∈ params, p.WellFormed) (hr : returnType.WellFormed) :
    ItemType.WellFormed (.functionTest params returnType)
  | parenthesized {inner : ItemType} (h : inner.WellFormed) : ItemType.WellFormed (.parenthesized inner)

end

/-! ### Clauses -/

namespace Clause

/-- Whether a query may begin with the clause. -/
def isInitial : Clause ε → Bool
  | .forEach _ | .letBe _ | .window .. => true
  | .count _ | .filter _ => false

/-- Whether the clause is a condition. -/
def isCondition : Clause ε → Bool
  | .filter _ => true
  | _ => false

/-- A clause binds something, and a sliding window has an end. -/
def WellFormed : Clause ε → Prop
  | .forEach bindings => bindings ≠ []
  | .letBe bindings => bindings ≠ []
  | .window kind _ _ _ _ finish => kind = .sliding → finish.isSome
  | .count _ | .filter _ => True

end Clause

/-- A query begins with a clause that binds something, and its condition is not left among the
clauses; there are clauses behind a grouping only if there is a grouping, and an ordering is stable
only if there is one. -/
structure Flwor.WellFormed (q : Flwor ε) : Prop where
  clauses : q.clauses ≠ []
  initial : ∀ c ∈ q.clauses.head?, c.isInitial
  condition : q.condition.isNone → ∀ c ∈ q.clauses.getLast?, ¬c.isCondition
  each : ∀ c ∈ q.clauses ++ q.postGroup, c.WellFormed
  grouped : q.postGroup ≠ [] → q.groupBy ≠ []
  ordered : q.stable → q.orderBy ≠ []

/-! ### Full text -/

/-- Of the sources of stop words only the first has no combinator. -/
def FtStopWordOption.WellFormed (w : FtStopWordOption) : Prop :=
  (∀ s ∈ w.sources.head?, s.combine = none) ∧ ∀ s ∈ w.sources.tail, s.combine.isSome

/-- Match options whose stop words are well-formed. -/
def FtMatchOptions.WellFormed (o : FtMatchOptions) : Prop :=
  ∀ w ∈ o.stopWords, w.WellFormed

/-- A connective has at least two operands, and conditions on positions and pragmas are there. -/
inductive FtSelection.WellFormed : FtSelection ε → Prop
  | or {operands : List (FtSelection ε)} (two : 2 ≤ operands.length)
    (h : ∀ s ∈ operands, s.WellFormed) : WellFormed (.or operands)
  | and {operands : List (FtSelection ε)} (two : 2 ≤ operands.length)
    (h : ∀ s ∈ operands, s.WellFormed) : WellFormed (.and operands)
  | mildNot {operands : List (FtSelection ε)} (two : 2 ≤ operands.length)
    (h : ∀ s ∈ operands, s.WellFormed) : WellFormed (.mildNot operands)
  | not {operand : FtSelection ε} (h : operand.WellFormed) : WellFormed (.not operand)
  | words (text : String) (mode : FtAnyAll) (times : Option (FtRange ε)) :
    WellFormed (.words text mode times)
  | computedWords (words : ε) (mode : FtAnyAll) (times : Option (FtRange ε)) :
    WellFormed (.computedWords words mode times)
  | withOptions {selection : FtSelection ε} (options : FtMatchOptions) (weight : Option ε)
    (h : selection.WellFormed) : WellFormed (.withOptions selection options weight)
  | positional {selection : FtSelection ε} {filters : List (FtPosFilter ε)}
    (h : selection.WellFormed) (some : filters ≠ []) : WellFormed (.positional selection filters)
  | emptyExtension {pragmas : List Pragma} (some : pragmas ≠ []) :
    WellFormed (.extension pragmas none)
  | extension {pragmas : List Pragma} {selection : FtSelection ε} (some : pragmas ≠ [])
    (h : selection.WellFormed) : WellFormed (.extension pragmas (.some selection))

/-! ### Markup -/

/-- The text of a part of an attribute value. -/
def AttributeValuePart.text? : AttributeValuePart ε → Option String
  | .text t => some t
  | .enclosed _ => none

/-- The text of a part of element content. -/
def DirContent.text? : DirContent ε → Option String
  | .text t => some t
  | _ => none

/-- Pieces of text that are not empty and do not stand next to each other. -/
structure Merged {π : Type} (text? : π → Option String) (parts : List π) : Prop where
  filled : ∀ p ∈ parts, text? p ≠ some ""
  apart : parts.IsChain fun p q => (text? p).isNone ∨ (text? q).isNone

/-- An element that closes itself is empty, texts are merged, and what is nested is markup. -/
structure DirElement.WellFormed (e : DirElement Expr) : Prop where
  selfClosing : e.selfClosing → e.content = []
  attributes : ∀ a ∈ e.attributes, Merged AttributeValuePart.text? a.value
  content : Merged DirContent.text? e.content
  nested : ∀ n, .node n ∈ e.content → n.kind.isMarkup

/-! ### Expressions -/

/-- What the grammar keeps to at a node, apart from the types and match options in it and from where
the nodes inside it may stand. -/
def ExprKind.Shaped : ExprKind Expr → Prop
  | .sequence items => items.length ≠ 1
  | .path .relative steps => steps ≠ [] ∧ ∀ s, steps = [s] → s.kind.isStep
  | .path .rootDescendants steps =>
    2 ≤ steps.length ∧
      ∀ s ∈ steps.head?, s.kind = .step .descendantOrSelf (.kind .anyKind) []
  | .step _ test _ => test.WellFormed
  | .filter _ predicates => predicates ≠ []
  | .flwor query => query.WellFormed
  | .quantified _ bindings _ => bindings ≠ []
  | .switch _ cases _ => cases ≠ [] ∧ ∀ c ∈ cases, c.operands ≠ []
  | .typeswitch _ cases _ _ => cases ≠ [] ∧ ∀ c ∈ cases, c.types ≠ []
  | .tryCatch _ catches => catches ≠ [] ∧ ∀ k ∈ catches, k.tests ≠ []
  | .extension pragmas _ => pragmas ≠ []
  | .dirElement element => element.WellFormed
  | .ftContains _ selection _ => selection.WellFormed
  | .transform bindings _ _ => bindings ≠ []
  | _ => True

/-- A form that the grammar makes. Steps stand in paths only, and arguments left open in calls. -/
structure ExprKind.WellFormed (k : ExprKind Expr) : Prop where
  shape : k.Shaped
  operands : ∀ e ∈ k.operands, ¬e.kind.isStep ∧ ¬e.kind.isPlaceholder
  steps : ∀ e ∈ k.steps, ¬e.kind.isPlaceholder
  arguments : ∀ e ∈ k.arguments, ¬e.kind.isStep
  types : ∀ t ∈ k.types, t.WellFormed
  options : ∀ o ∈ k.matchOptions, o.WellFormed

/-- A tree that the grammar makes: an expression of its own, with well-formed nodes. -/
structure Expr.WellFormed (e : Expr) : Prop where
  not_step : ¬e.kind.isStep
  not_placeholder : ¬e.kind.isPlaceholder
  nodes : ∀ n ∈ e.nodes, n.kind.WellFormed

/-- A module with well-formed expressions, types and match options. -/
structure Module.WellFormed (m : Module) : Prop where
  exprs : ∀ e ∈ m.exprs, e.WellFormed
  types : ∀ t ∈ m.types, t.WellFormed
  options : ∀ o ∈ m.matchOptions, o.WellFormed

end XQuerySyntax

/-! ### Shapes

Sound trees: what all that is parsed from one text has in common. A sound tree is well-formed, the
places in it lie between characters of the text, its nodes belong to one module, and its types nest no
deeper than a limit. It is sound because its parts are and its own form is. -/

namespace XQuerySyntax

/-- What a tree comes from: a text, the module that it is, and a limit on nesting. -/
structure Origin where
  text : String
  module : ModuleId
  limit : Nat

variable {o : Origin}

/-- A place in the text that a tree comes from. -/
abbrev Origin.HasPlace (o : Origin) (offset : Nat) : Prop := IsBoundary o.text offset

/-- A well-formed type that is not too deep. -/
structure SequenceType.Sound (o : Origin) (t : SequenceType) : Prop where
  wellFormed : t.WellFormed
  depth : t.depth ≤ o.limit

/-- Well-formed match options with constants of the module in places of the text. -/
structure FtMatchOptions.Sound (o : Origin) (m : FtMatchOptions) : Prop where
  wellFormed : m.WellFormed
  constants : ∀ k ∈ m.constants, o.HasPlace k.offset ∧ k.module = o.module

/-- A node of a sound tree. -/
structure Expr.SoundNode (o : Origin) (n : Expr) : Prop where
  offset : o.HasPlace n.offset
  module : n.module = o.module
  wellFormed : n.kind.WellFormed
  types : ∀ t ∈ n.kind.types, t.Sound o
  places : ∀ place ∈ n.kind.places, o.HasPlace place
  options : ∀ m ∈ n.kind.matchOptions, m.Sound o

/-- A tree whose nodes are all sound. -/
def Expr.Sound (o : Origin) (e : Expr) : Prop := ∀ n ∈ e.nodes, n.SoundNode o

/-- A sound tree that may stand wherever an expression may. -/
structure Expr.IsOperand (o : Origin) (e : Expr) : Prop where
  sound : e.Sound o
  not_step : ¬e.kind.isStep
  not_placeholder : ¬e.kind.isPlaceholder

/-- A form that makes a sound tree. -/
structure ExprKind.Sound (o : Origin) (k : ExprKind Expr) : Prop where
  operands : ∀ e ∈ k.operands, e.IsOperand o
  shape : k.Shaped
  types : ∀ t ∈ k.types, t.Sound o
  places : ∀ place ∈ k.places, o.HasPlace place
  options : ∀ m ∈ k.matchOptions, m.Sound o
  steps : ∀ e ∈ k.steps, e.Sound o ∧ ¬e.kind.isPlaceholder
  arguments : ∀ e ∈ k.arguments, e.Sound o ∧ ¬e.kind.isStep

/-- A form that makes an operand: a sound one that is neither a step nor an argument left open. -/
structure ExprKind.IsOperand (o : Origin) (k : ExprKind Expr) : Prop extends k.Sound o where
  not_step : k.isStep = false
  not_placeholder : k.isPlaceholder = false

/-- Whether a form holds nothing but operands. -/
def ExprKind.isBare (k : ExprKind Expr) : Bool :=
  k.types.isEmpty && k.places.isEmpty && k.matchOptions.isEmpty && k.steps.isEmpty && k.arguments.isEmpty

/-- A form that holds nothing but operands is sound if these are. -/
theorem ExprKind.Sound.bare {k : ExprKind Expr} (hk : k.isBare = true)
    (operands : ∀ e ∈ k.operands, e.IsOperand o) (shape : k.Shaped) : k.Sound o := by
  simp only [isBare, Bool.and_eq_true, List.isEmpty_iff] at hk
  obtain ⟨⟨⟨⟨htypes, hplaces⟩, hoptions⟩, hsteps⟩, harguments⟩ := hk
  have hnone {α : Type} {p : α → Prop} {as : List α} (h : as = []) : ∀ a ∈ as, p a :=
    h ▸ List.forall_mem_nil _
  exact ⟨operands, shape, hnone htypes, hnone hplaces, hnone hoptions, hnone hsteps, hnone harguments⟩

theorem ExprKind.IsOperand.bare {k : ExprKind Expr} (hk : k.isBare = true) (hs : k.isStep = false)
    (hp : k.isPlaceholder = false) (operands : ∀ e ∈ k.operands, e.IsOperand o) (shape : k.Shaped) :
    k.IsOperand o := ⟨.bare hk operands shape, hs, hp⟩

/-- A node is sound if its form is. -/
theorem ExprKind.Sound.node {k : ExprKind Expr} (h : k.Sound o) {offset : Nat}
    (ho : o.HasPlace offset) : (Expr.mk k offset o.module).Sound o := by
  intro n hn
  rcases Expr.mem_nodes.1 hn with rfl | ⟨c, hc, hn⟩
  · have hw : k.WellFormed :=
      { shape := h.shape
        operands := fun e he => ⟨(h.operands e he).not_step, (h.operands e he).not_placeholder⟩
        steps := fun e he => (h.steps e he).2
        arguments := fun e he => (h.arguments e he).2
        types := fun t ht => (h.types t ht).wellFormed
        options := fun m hm => (h.options m hm).wellFormed }
    exact ⟨ho, rfl, hw, h.types, h.places, h.options⟩
  · rcases ExprKind.mem_children hc with hc | hc | hc
    · exact (h.operands c hc).sound n hn
    · exact (h.steps c hc).1 n hn
    · exact (h.arguments c hc).1 n hn

/-- The expression at the root of a sound tree stands in a place of the text. -/
theorem Expr.Sound.offset {e : Expr} (h : e.Sound o) : o.HasPlace e.offset :=
  (h e (Expr.mem_nodes.2 (.inl rfl))).offset

/-! ### Modules -/

/-- A declaration with sound parts. -/
structure DeclarationKind.Sound (o : Origin) (k : DeclarationKind) : Prop where
  exprs : ∀ e ∈ k.exprs, e.IsOperand o
  types : ∀ t ∈ k.types, t.Sound o
  options : ∀ m ∈ k.matchOptions, m.Sound o

theorem DeclarationKind.Sound.bare {k : DeclarationKind}
    (hk : k.exprs = [] ∧ k.types = [] ∧ k.matchOptions = []) : k.Sound o := by
  obtain ⟨hexprs, htypes, hoptions⟩ := hk
  constructor
  · exact hexprs ▸ List.forall_mem_nil _
  · exact htypes ▸ List.forall_mem_nil _
  · exact hoptions ▸ List.forall_mem_nil _

/-- A module with sound declarations and a sound body, all in places of the text. -/
structure Module.Sound (o : Origin) (m : Module) : Prop where
  version : ∀ v ∈ m.prolog.version, o.HasPlace v.offset
  declarations : ∀ d ∈ m.prolog.declarations, o.HasPlace d.offset ∧ d.kind.Sound o
  body : ∀ e ∈ m.body?, e.IsOperand o

theorem Module.Sound.exprs {m : Module} (h : m.Sound o) : ∀ e ∈ m.exprs, e.IsOperand o := by
  refine List.forall_mem_append.2 ⟨List.forall_mem_flatMap.2 ?_, fun e he => ?_⟩
  · exact List.forall_mem_map.2 fun d hd => (h.declarations d hd).2.exprs
  · exact h.body e (Option.mem_toList.1 he)

theorem Module.Sound.nodes {m : Module} (h : m.Sound o) : ∀ n ∈ m.nodes, n.SoundNode o :=
  List.forall_mem_flatMap.2 fun e he => (h.exprs e he).sound

theorem Module.Sound.types {m : Module} (h : m.Sound o) : ∀ t ∈ m.types, t.Sound o := by
  refine List.forall_mem_append.2 ⟨List.forall_mem_flatMap.2 ?_, List.forall_mem_flatMap.2 ?_⟩
  · exact List.forall_mem_map.2 fun d hd => (h.declarations d hd).2.types
  · exact fun n hn => (h.nodes n hn).types

theorem Module.Sound.options {m : Module} (h : m.Sound o) : ∀ p ∈ m.matchOptions, p.Sound o := by
  refine List.forall_mem_append.2 ⟨List.forall_mem_flatMap.2 ?_, List.forall_mem_flatMap.2 ?_⟩
  · exact List.forall_mem_map.2 fun d hd => (h.declarations d hd).2.options
  · exact fun n hn => (h.nodes n hn).options

theorem Expr.IsOperand.wellFormed {e : Expr} (h : e.IsOperand o) : e.WellFormed :=
  ⟨h.not_step, h.not_placeholder, fun n hn => (h.sound n hn).wellFormed⟩

theorem Module.Sound.wellFormed {m : Module} (h : m.Sound o) : m.WellFormed :=
  ⟨fun e he => (h.exprs e he).wellFormed, fun t ht => (h.types t ht).wellFormed,
    fun p hp => (h.options p hp).wellFormed⟩

end XQuerySyntax
