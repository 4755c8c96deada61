import XQuerySyntax.Tree.Children

/-! What a tree holds besides expressions: types, match options with the constants in them, and the
places of bindings and attributes. Each is collected from one node; the nodes of a tree are known. -/

namespace XQuerySyntax

variable {ε : Type}

/-! ### Types -/

mutual

/-- The number of item types inside one another, each counted where a sequence type begins. A pair of
parentheses around an item type begins none. -/
def SequenceType.depth : SequenceType → Nat
  | .mk .emptySequence _ => 0
  | .mk itemType _ => itemType.depthInside + 1

/-- The largest depth of the sequence types inside an item type. -/
def ItemType.depthInside : ItemType → Nat
  | .functionTest params returnType => max (SequenceType.depthOfAll params) returnType.depth
  | .parenthesized inner => inner.depthInside
  | _ => 0

/-- The largest depth of several sequence types. -/
def SequenceType.depthOfAll : List SequenceType → Nat
  | [] => 0
  | t :: ts => max t.depth (SequenceType.depthOfAll ts)

end

theorem SequenceType.depthOfAll_le {ts : List SequenceType} {n : Nat} (h : ∀ t ∈ ts, t.depth ≤ n) :
    depthOfAll ts ≤ n := by
  induction ts with
  | nil => exact Nat.zero_le n
  | cons t ts ih =>
    rw [depthOfAll]
    exact Nat.max_le.2 ⟨h t List.mem_cons_self, ih fun t ht => h t (List.mem_cons_of_mem _ ht)⟩

/-- The types of a clause. -/
def Clause.types : Clause ε → List SequenceType
  | .forEach bindings => bindings.flatMap fun b => b.typeDecl.toList
  | .letBe bindings => bindings.flatMap fun b => b.typeDecl.toList
  | .window _ _ typeDecl _ _ _ => typeDecl.toList
  | .count _ | .filter _ => []

/-- The types of parameters. -/
def Param.types (params : List Param) : List SequenceType :=
  params.flatMap fun p => p.typeDecl.toList

/-- The types that a form is written with, those of nested nodes apart. -/
def ExprKind.types : ExprKind ε → List SequenceType
  | .instanceOf _ t | .treatAs _ t => [t]
  | .inlineFunction _ params returnType _ => Param.types params ++ returnType.toList
  | .flwor query => (query.clauses ++ query.postGroup).flatMap Clause.types
  | .quantified _ bindings _ | .transform bindings _ _ => bindings.flatMap fun b => b.typeDecl.toList
  | .typeswitch _ cases _ _ => cases.flatMap fun c => c.types
  | .block declarations _ => declarations.flatMap fun d => d.typeDecl.toList
  | _ => []

/-! ### Places -/

/-- Where the bindings of a clause begin. -/
def Clause.places : Clause ε → List Nat
  | .forEach bindings => bindings.map fun b => b.offset
  | .letBe bindings => bindings.map fun b => b.offset
  | _ => []

/-- Where the bindings and the attributes of a form begin. -/
def ExprKind.places : ExprKind ε → List Nat
  | .flwor query => (query.clauses ++ query.postGroup).flatMap Clause.places
  | .dirElement element => element.attributes.map fun a => a.offset
  | _ => []

/-! ### Match options -/

/-- The match options of a selection, those of nested selections included. -/
def FtSelection.matchOptions : FtSelection ε → List FtMatchOptions
  | .or operands => operands.flatMap fun s => s.matchOptions
  | .and operands => operands.flatMap fun s => s.matchOptions
  | .mildNot operands => operands.flatMap fun s => s.matchOptions
  | .not operand => operand.matchOptions
  | .words .. | .computedWords .. => []
  | .withOptions selection options _ => options :: selection.matchOptions
  | .positional selection _ => selection.matchOptions
  | .extension _ none => []
  | .extension _ (some selection) => selection.matchOptions

/-- The match options that a form is written with, those of nested nodes apart. -/
def ExprKind.matchOptions : ExprKind ε → List FtMatchOptions
  | .ftContains _ selection _ => selection.matchOptions
  | _ => []

/-- The constants in the use of thesauri. -/
def FtThesaurusOption.constants (t : FtThesaurusOption) : List LiteralNode :=
  t.thesauri.flatMap fun id => id.levels.toList.flatMap FtRange.children

/-- The constants in match options. -/
def FtMatchOptions.constants (o : FtMatchOptions) : List LiteralNode :=
  o.thesaurus.toList.flatMap FtThesaurusOption.constants

/-! ### Operands, steps and arguments -/

/-- The nodes inside a form that are expressions of their own, not steps of a path or arguments of a
call. -/
def ExprKind.operands [SizeOf ε] : ExprKind ε → List ε
  | .path .. | .functionCall .. => []
  | .dynamicCall function _ => [function]
  | kind => kind.children

/-- The steps of a path. -/
def ExprKind.steps : ExprKind ε → List ε
  | .path _ steps => steps
  | _ => []

/-- The arguments of a call. -/
def ExprKind.arguments : ExprKind ε → List ε
  | .functionCall _ args | .dynamicCall _ args => args
  | _ => []

theorem ExprKind.mem_children [SizeOf ε] {k : ExprKind ε} {e : ε} (h : e ∈ k.children) :
    e ∈ k.operands ∨ e ∈ k.steps ∨ e ∈ k.arguments := by
  cases k
  case path => exact .inr (.inl h)
  case functionCall => exact .inr (.inr h)
  case dynamicCall =>
    rcases List.mem_cons.1 h with h | h
    · exact .inl (List.mem_singleton.2 h)
    · exact .inr (.inr h)
  all_goals exact .inl h

theorem Expr.mem_nodes {e n : Expr} : n ∈ e.nodes ↔ n = e ∨ ∃ c ∈ e.children, n ∈ c.nodes := by
  rw [nodes, List.mem_cons, List.mem_flatMap]
  simp only [List.mem_attach, true_and, Subtype.exists, exists_prop]

/-! ### Forms of nodes -/

namespace ExprKind

/-- Whether the form is a step of a path. -/
def isStep : ExprKind ε → Bool
  | step .. => true
  | _ => false

/-- Whether the form is an argument left open. -/
def isPlaceholder : ExprKind ε → Bool
  | argumentPlaceholder => true
  | _ => false

/-- Whether the form is markup. -/
def isMarkup : ExprKind ε → Bool
  | dirElement _ | dirComment _ | dirPi .. => true
  | _ => false

end ExprKind

/-! ### Modules -/

namespace DeclarationKind

/-- The expressions of a declaration. -/
def exprs : DeclarationKind → List Expr
  | contextItem _ value _ => value.toList
  | variableDecl d => d.value.toList
  | functionDecl d => d.body.toList
  | _ => []

/-- The types that a declaration is written with, those of its expressions apart. -/
def types : DeclarationKind → List SequenceType
  | contextItem itemType _ _ => itemType.toList
  | variableDecl d => d.typeDecl.toList
  | functionDecl d => Param.types d.params ++ d.returnType.toList
  | _ => []

/-- The match options that a declaration sets. -/
def matchOptions : DeclarationKind → List FtMatchOptions
  | ftOption options => [options]
  | _ => []

end DeclarationKind

namespace Module

/-- The declarations without their places. -/
def declared (m : Module) : List DeclarationKind := m.prolog.declarations.map Declaration.kind

/-- The expressions of a module that are not inside other expressions. -/
def exprs (m : Module) : List Expr :=
  m.declared.flatMap DeclarationKind.exprs ++ m.body?.toList

/-- All nodes of the expressions of a module. -/
def nodes (m : Module) : List Expr := m.exprs.flatMap Expr.nodes

/-- All sequence types of a module, in declarations and in expressions, those inside other types
apart. -/
def types (m : Module) : List SequenceType :=
  m.declared.flatMap DeclarationKind.types ++ m.nodes.flatMap fun n => n.kind.types

/-- All match options of a module, in declarations and in expressions. -/
def matchOptions (m : Module) : List FtMatchOptions :=
  m.declared.flatMap DeclarationKind.matchOptions ++ m.nodes.flatMap fun n => n.kind.matchOptions

end Module

end XQuerySyntax
