import XQuerySyntax.Tree.Module

/-!
The expressions directly inside an expression, field by field. They are smaller than the expression,
so functions may recurse through them; the height of a tree and the list of its nodes are such
functions.
-/

namespace XQuerySyntax

variable {ε α : Type} [SizeOf ε] [SizeOf α]

theorem sizeOf_lt_of_mem_option {c : ε} {o : Option ε} (h : c ∈ o.toList) :
    sizeOf c < sizeOf o := by
  cases o with
  | none => simp at h
  | some d =>
    simp only [Option.toList_some, List.mem_singleton] at h
    subst h
    simp only [Option.some.sizeOf_spec]
    omega

theorem sizeOf_lt_of_mem_flatMap {c : ε} {f : α → List ε} {xs : List α}
    (smaller : ∀ x, c ∈ f x → sizeOf c < sizeOf x) (h : c ∈ xs.flatMap f) :
    sizeOf c < sizeOf xs := by
  obtain ⟨x, hx, hc⟩ := List.mem_flatMap.1 h
  exact Nat.lt_trans (smaller x hc) (List.sizeOf_lt_of_mem hx)

theorem sizeOf_lt_of_mem_optionFlatMap {c : ε} {f : α → List ε} {o : Option α}
    (smaller : ∀ x, c ∈ f x → sizeOf c < sizeOf x) (h : c ∈ o.toList.flatMap f) :
    sizeOf c < sizeOf o := by
  cases o with
  | none => simp at h
  | some x =>
    simp only [Option.toList_some, List.flatMap_cons, List.flatMap_nil, List.append_nil] at h
    have := smaller x h
    simp only [Option.some.sizeOf_spec]
    omega

/-! ### Full text -/

/-- The bounds of a range. -/
def FtRange.children : FtRange ε → List ε
  | .exactly e | .atLeast e | .atMost e => [e]
  | .fromTo low high => [low, high]

theorem FtRange.sizeOf_lt {r : FtRange ε} {c : ε} (h : c ∈ r.children) : sizeOf c < sizeOf r := by
  cases r <;> simp only [children, List.mem_cons, List.not_mem_nil, or_false] at h
  case fromTo low high => rcases h with rfl | rfl <;> rw [fromTo.sizeOf_spec] <;> omega
  all_goals
    subst h
    simp only [exactly.sizeOf_spec, atLeast.sizeOf_spec, atMost.sizeOf_spec]
    omega

/-- The expressions of a condition on positions. -/
def FtPosFilter.children : FtPosFilter ε → List ε
  | .window size _ => [size]
  | .distance range _ => range.children
  | .ordered | .scope .. | .atStart | .atEnd | .entireContent => []

theorem FtPosFilter.sizeOf_lt {f : FtPosFilter ε} {c : ε} (h : c ∈ f.children) :
    sizeOf c < sizeOf f := by
  cases f <;> simp only [children, List.mem_singleton, List.not_mem_nil] at h
  case window =>
    subst h
    rw [window.sizeOf_spec]
    omega
  case distance =>
    have := FtRange.sizeOf_lt h
    rw [distance.sizeOf_spec]
    omega

/-- The expressions of a selection, those of nested selections included. -/
def FtSelection.children : FtSelection ε → List ε
  | .or operands => operands.flatMap fun s => s.children
  | .and operands => operands.flatMap fun s => s.children
  | .mildNot operands => operands.flatMap fun s => s.children
  | .not operand => operand.children
  | .words _ _ times => times.toList.flatMap FtRange.children
  | .computedWords source _ times => source :: times.toList.flatMap FtRange.children
  | .withOptions selection _ weight => selection.children ++ weight.toList
  | .positional selection filters => selection.children ++ filters.flatMap FtPosFilter.children
  | .extension _ none => []
  | .extension _ (some selection) => selection.children

theorem FtSelection.sizeOf_lt {s : FtSelection ε} {c : ε} (h : c ∈ s.children) :
    sizeOf c < sizeOf s := by
  match s with
  | .or operands | .and operands | .mildNot operands =>
    simp only [children, List.mem_flatMap] at h
    obtain ⟨t, ht, hc⟩ := h
    have := List.sizeOf_lt_of_mem ht
    have := sizeOf_lt hc
    simp only [or.sizeOf_spec, and.sizeOf_spec, mildNot.sizeOf_spec]
    omega
  | .not operand =>
    simp only [children] at h
    have := sizeOf_lt h
    rw [not.sizeOf_spec]
    omega
  | .words _ _ times =>
    simp only [children] at h
    have := sizeOf_lt_of_mem_optionFlatMap (fun _ => FtRange.sizeOf_lt) h
    rw [words.sizeOf_spec]
    omega
  | .computedWords source _ times =>
    simp only [children, List.mem_cons] at h
    rw [computedWords.sizeOf_spec]
    rcases h with rfl | h
    · omega
    · have := sizeOf_lt_of_mem_optionFlatMap (fun _ => FtRange.sizeOf_lt) h
      omega
  | .withOptions selection _ weight =>
    simp only [children, List.mem_append] at h
    rw [withOptions.sizeOf_spec]
    rcases h with h | h
    · have := sizeOf_lt h
      omega
    · have := sizeOf_lt_of_mem_option h
      omega
  | .positional selection filters =>
    simp only [children, List.mem_append] at h
    rw [positional.sizeOf_spec]
    rcases h with h | h
    · have := sizeOf_lt h
      omega
    · have := sizeOf_lt_of_mem_flatMap (fun _ => FtPosFilter.sizeOf_lt) h
      omega
  | .extension _ none => simp only [children, List.not_mem_nil] at h
  | .extension _ (some selection) =>
    simp only [children] at h
    have := sizeOf_lt h
    rw [extension.sizeOf_spec, Option.some.sizeOf_spec]
    omega
termination_by sizeOf s

/-! ### Constructors -/

/-- The expression of a part of an attribute value. -/
def AttributeValuePart.children : AttributeValuePart ε → List ε
  | .text _ => []
  | .enclosed e => [e]

theorem AttributeValuePart.sizeOf_lt {p : AttributeValuePart ε} {c : ε} (h : c ∈ p.children) :
    sizeOf c < sizeOf p := by
  cases p <;> simp only [children, List.mem_singleton, List.not_mem_nil] at h
  subst h
  rw [enclosed.sizeOf_spec]
  omega

/-- The expressions of an attribute. -/
def DirAttribute.children (a : DirAttribute ε) : List ε :=
  a.value.flatMap AttributeValuePart.children

theorem DirAttribute.sizeOf_lt {a : DirAttribute ε} {c : ε} (h : c ∈ a.children) :
    sizeOf c < sizeOf a := by
  cases a
  have := sizeOf_lt_of_mem_flatMap (fun _ => AttributeValuePart.sizeOf_lt) h
  rw [mk.sizeOf_spec]
  simp only at this
  omega

/-- The expression of a part of element content. -/
def DirContent.children : DirContent ε → List ε
  | .text _ | .literalSection _ => []
  | .enclosed e | .node e => [e]

theorem DirContent.sizeOf_lt {d : DirContent ε} {c : ε} (h : c ∈ d.children) :
    sizeOf c < sizeOf d := by
  cases d <;> simp only [children, List.mem_singleton, List.not_mem_nil] at h
  all_goals
    subst h
    simp only [enclosed.sizeOf_spec, node.sizeOf_spec]
    omega

/-- The expressions of an element. -/
def DirElement.children (e : DirElement ε) : List ε :=
  e.attributes.flatMap DirAttribute.children ++ e.content.flatMap DirContent.children

theorem DirElement.sizeOf_lt {e : DirElement ε} {c : ε} (h : c ∈ e.children) :
    sizeOf c < sizeOf e := by
  cases e
  rw [mk.sizeOf_spec]
  rcases List.mem_append.1 h with h | h
  · have := sizeOf_lt_of_mem_flatMap (fun _ => DirAttribute.sizeOf_lt) h
    simp only at this
    omega
  · have := sizeOf_lt_of_mem_flatMap (fun _ => DirContent.sizeOf_lt) h
    simp only at this
    omega

/-- The expression of a computed name. -/
def ComputedName.children : ComputedName ε → List ε
  | .literal _ => []
  | .expr e => [e]

theorem ComputedName.sizeOf_lt {n : ComputedName ε} {c : ε} (h : c ∈ n.children) :
    sizeOf c < sizeOf n := by
  cases n <;> simp only [children, List.mem_singleton, List.not_mem_nil] at h
  subst h
  rw [expr.sizeOf_spec]
  omega

/-! ### Clauses -/

/-- The expression of a window condition. -/
def WindowCondition.children (w : WindowCondition ε) : List ε := [w.condition]

theorem WindowCondition.sizeOf_lt {w : WindowCondition ε} {c : ε} (h : c ∈ w.children) :
    sizeOf c < sizeOf w := by
  cases w
  simp only [children, List.mem_singleton] at h
  subst h
  rw [mk.sizeOf_spec]
  omega

/-- The expression of a grouping key. -/
def GroupingSpec.children (g : GroupingSpec ε) : List ε := g.value.toList

theorem GroupingSpec.sizeOf_lt {g : GroupingSpec ε} {c : ε} (h : c ∈ g.children) :
    sizeOf c < sizeOf g := by
  cases g
  have := sizeOf_lt_of_mem_option h
  rw [mk.sizeOf_spec]
  simp only at this
  omega

/-- The expressions of a clause. -/
def Clause.children : Clause ε → List ε
  | .forEach bindings => bindings.flatMap fun b => [b.source]
  | .letBe bindings => bindings.flatMap fun b => [b.value]
  | .window _ _ _ source start finish =>
    source :: start.children ++ finish.toList.flatMap WindowCondition.children
  | .count _ => []
  | .filter condition => [condition]

theorem ForBinding.sizeOf_source (b : ForBinding ε) : sizeOf b.source < sizeOf b := by
  cases b
  simp only [mk.sizeOf_spec]
  omega

theorem LetBinding.sizeOf_value (b : LetBinding ε) : sizeOf b.value < sizeOf b := by
  cases b
  simp only [mk.sizeOf_spec]
  omega

theorem OrderSpec.sizeOf_key (s : OrderSpec ε) : sizeOf s.key < sizeOf s := by
  cases s
  simp only [mk.sizeOf_spec]
  omega

theorem Clause.sizeOf_lt {k : Clause ε} {c : ε} (h : c ∈ k.children) : sizeOf c < sizeOf k := by
  cases k with
  | forEach bindings =>
    have := sizeOf_lt_of_mem_flatMap (c := c) (f := fun b : ForBinding ε => [b.source])
      (fun b hb => List.mem_singleton.1 hb ▸ b.sizeOf_source) h
    rw [forEach.sizeOf_spec]
    omega
  | letBe bindings =>
    have := sizeOf_lt_of_mem_flatMap (c := c) (f := fun b : LetBinding ε => [b.value])
      (fun b hb => List.mem_singleton.1 hb ▸ b.sizeOf_value) h
    rw [letBe.sizeOf_spec]
    omega
  | window kind name typeDecl source start finish =>
    simp only [children, List.cons_append, List.mem_cons, List.mem_append] at h
    rw [window.sizeOf_spec]
    rcases h with rfl | h | h
    · omega
    · have := WindowCondition.sizeOf_lt h
      omega
    · have := sizeOf_lt_of_mem_optionFlatMap (fun _ => WindowCondition.sizeOf_lt) h
      omega
  | count => simp only [children, List.not_mem_nil] at h
  | filter condition =>
    simp only [children, List.mem_singleton] at h
    subst h
    rw [filter.sizeOf_spec]
    omega

/-- The expressions of a query of clauses. -/
def Flwor.children (q : Flwor ε) : List ε :=
  q.clauses.flatMap Clause.children ++ q.condition.toList
    ++ q.groupBy.flatMap GroupingSpec.children ++ q.postGroup.flatMap Clause.children
    ++ (q.orderBy.flatMap fun s => [s.key]) ++ [q.result]

theorem Flwor.sizeOf_lt {q : Flwor ε} {c : ε} (h : c ∈ q.children) : sizeOf c < sizeOf q := by
  cases q
  simp only [children, List.mem_append, List.mem_singleton] at h
  rw [mk.sizeOf_spec]
  rcases h with ((((h | h) | h) | h) | h) | rfl
  · have := sizeOf_lt_of_mem_flatMap (fun _ => Clause.sizeOf_lt) h
    omega
  · have := sizeOf_lt_of_mem_option h
    omega
  · have := sizeOf_lt_of_mem_flatMap (fun _ => GroupingSpec.sizeOf_lt) h
    omega
  · have := sizeOf_lt_of_mem_flatMap (fun _ => Clause.sizeOf_lt) h
    omega
  · have := sizeOf_lt_of_mem_flatMap (c := c) (f := fun s : OrderSpec ε => [s.key])
      (fun s hs => List.mem_singleton.1 hs ▸ s.sizeOf_key) h
    omega
  · omega

/-! ### Branches and bindings -/

/-- The expressions of a branch. -/
def SwitchCase.children (b : SwitchCase ε) : List ε := b.operands ++ [b.result]

theorem SwitchCase.sizeOf_lt {b : SwitchCase ε} {c : ε} (h : c ∈ b.children) :
    sizeOf c < sizeOf b := by
  cases b
  rw [mk.sizeOf_spec]
  rcases List.mem_append.1 h with h | h
  · have := List.sizeOf_lt_of_mem h
    simp only at this
    omega
  · simp only [List.mem_singleton] at h
    subst h
    omega

/-- The expression of a branch on types. -/
def TypeswitchCase.children (b : TypeswitchCase ε) : List ε := [b.result]

theorem TypeswitchCase.sizeOf_lt {b : TypeswitchCase ε} {c : ε} (h : c ∈ b.children) :
    sizeOf c < sizeOf b := by
  cases b
  simp only [children, List.mem_singleton] at h
  subst h
  rw [mk.sizeOf_spec]
  omega

/-- The expression of a handler. -/
def CatchClause.children (k : CatchClause ε) : List ε := [k.body]

theorem CatchClause.sizeOf_lt {k : CatchClause ε} {c : ε} (h : c ∈ k.children) :
    sizeOf c < sizeOf k := by
  cases k
  simp only [children, List.mem_singleton] at h
  subst h
  rw [mk.sizeOf_spec]
  omega

/-- The expression of a binding. -/
def VariableBinding.children (b : VariableBinding ε) : List ε := [b.value]

theorem VariableBinding.sizeOf_lt {b : VariableBinding ε} {c : ε} (h : c ∈ b.children) :
    sizeOf c < sizeOf b := by
  cases b
  simp only [children, List.mem_singleton] at h
  subst h
  rw [mk.sizeOf_spec]
  omega

/-- The expression of a variable of a block. -/
def BlockVarDecl.children (d : BlockVarDecl ε) : List ε := d.value.toList

theorem BlockVarDecl.sizeOf_lt {d : BlockVarDecl ε} {c : ε} (h : c ∈ d.children) :
    sizeOf c < sizeOf d := by
  cases d
  have := sizeOf_lt_of_mem_option h
  rw [mk.sizeOf_spec]
  simp only at this
  omega

/-! ### Expressions -/

/-- The nodes directly inside a form. -/
def ExprKind.children : ExprKind ε → List ε
  | .literal _ | .contextItem | .varRef _ | .argumentPlaceholder | .namedFunctionRef ..
  | .dirComment _ | .dirPi .. | .breakLoop | .continueLoop => []
  | .sequence items => items
  | .binary _ left right => [left, right]
  | .range first last => [first, last]
  | .unary _ e | .instanceOf e _ | .treatAs e _ | .castableAs e _ | .castAs e _
  | .inlineFunction _ _ _ e | .validate _ _ e | .ordered e | .unordered e | .compDocument e
  | .compText e | .compComment e | .delete e | .assign _ e | .exit e => [e]
  | .path _ steps => steps
  | .step _ _ predicates => predicates
  | .filter base predicates => base :: predicates
  | .functionCall _ args => args
  | .dynamicCall function args => function :: args
  | .flwor query => query.children
  | .quantified _ bindings satisfies => bindings.flatMap VariableBinding.children ++ [satisfies]
  | .ifThenElse condition thenExpr elseExpr => [condition, thenExpr, elseExpr]
  | .switch operand cases default => operand :: cases.flatMap SwitchCase.children ++ [default]
  | .typeswitch operand cases _ default =>
    operand :: cases.flatMap TypeswitchCase.children ++ [default]
  | .tryCatch body catches => body :: catches.flatMap CatchClause.children
  | .extension _ e => e.toList
  | .dirElement element => element.children
  | .compElement name content | .compAttribute name content | .compPi name content =>
    name.children ++ content.toList
  | .compNamespace name uri => name.children ++ [uri]
  | .ftContains e selection withoutContent => e :: selection.children ++ withoutContent.toList
  | .insert source _ target => [source, target]
  | .replace _ target replacement => [target, replacement]
  | .rename target newName => [target, newName]
  | .transform bindings modify returnExpr =>
    bindings.flatMap VariableBinding.children ++ [modify, returnExpr]
  | .block declarations body => declarations.flatMap BlockVarDecl.children ++ body
  | .whileLoop condition body => [condition, body]

theorem ExprKind.sizeOf_lt {k : ExprKind ε} {c : ε} (h : c ∈ k.children) :
    sizeOf c < sizeOf k := by
  cases k <;> simp only [children, List.mem_cons, List.mem_append, List.not_mem_nil, or_false,
    List.cons_append] at h
  case sequence | path | step | functionCall =>
    have := List.sizeOf_lt_of_mem h
    simp only [sequence.sizeOf_spec, path.sizeOf_spec, step.sizeOf_spec, functionCall.sizeOf_spec]
    omega
  case filter | dynamicCall =>
    simp only [filter.sizeOf_spec, dynamicCall.sizeOf_spec]
    rcases h with rfl | h
    · omega
    · have := List.sizeOf_lt_of_mem h
      omega
  case flwor =>
    have := Flwor.sizeOf_lt h
    rw [flwor.sizeOf_spec]
    omega
  case quantified =>
    rw [quantified.sizeOf_spec]
    rcases h with h | rfl
    · have := sizeOf_lt_of_mem_flatMap (fun _ => VariableBinding.sizeOf_lt) h
      omega
    · omega
  case switch =>
    rw [switch.sizeOf_spec]
    rcases h with rfl | h | rfl
    · omega
    · have := sizeOf_lt_of_mem_flatMap (fun _ => SwitchCase.sizeOf_lt) h
      omega
    · omega
  case typeswitch =>
    rw [typeswitch.sizeOf_spec]
    rcases h with rfl | h | rfl
    · omega
    · have := sizeOf_lt_of_mem_flatMap (fun _ => TypeswitchCase.sizeOf_lt) h
      omega
    · omega
  case tryCatch =>
    rw [tryCatch.sizeOf_spec]
    rcases h with rfl | h
    · omega
    · have := sizeOf_lt_of_mem_flatMap (fun _ => CatchClause.sizeOf_lt) h
      omega
  case extension =>
    have := sizeOf_lt_of_mem_option h
    rw [extension.sizeOf_spec]
    omega
  case dirElement =>
    have := DirElement.sizeOf_lt h
    rw [dirElement.sizeOf_spec]
    omega
  case compElement | compAttribute | compPi =>
    simp only [compElement.sizeOf_spec, compAttribute.sizeOf_spec, compPi.sizeOf_spec]
    rcases h with h | h
    · have := ComputedName.sizeOf_lt h
      omega
    · have := sizeOf_lt_of_mem_option h
      omega
  case compNamespace =>
    rw [compNamespace.sizeOf_spec]
    rcases h with h | rfl
    · have := ComputedName.sizeOf_lt h
      omega
    · omega
  case ftContains =>
    rw [ftContains.sizeOf_spec]
    rcases h with rfl | h | h
    · omega
    · have := FtSelection.sizeOf_lt h
      omega
    · have := sizeOf_lt_of_mem_option h
      omega
  case transform =>
    rw [transform.sizeOf_spec]
    rcases h with h | rfl | rfl
    · have := sizeOf_lt_of_mem_flatMap (fun _ => VariableBinding.sizeOf_lt) h
      omega
    · omega
    · omega
  case block =>
    rw [block.sizeOf_spec]
    rcases h with h | h
    · have := sizeOf_lt_of_mem_flatMap (fun _ => BlockVarDecl.sizeOf_lt) h
      omega
    · have := List.sizeOf_lt_of_mem h
      omega
  case binary | range | insert | replace | rename | whileLoop =>
    simp only [binary.sizeOf_spec, range.sizeOf_spec, insert.sizeOf_spec, replace.sizeOf_spec,
      rename.sizeOf_spec, whileLoop.sizeOf_spec]
    rcases h with rfl | rfl <;> omega
  case ifThenElse =>
    rw [ifThenElse.sizeOf_spec]
    rcases h with rfl | rfl | rfl <;> omega
  all_goals
    subst h
    simp only [unary.sizeOf_spec, instanceOf.sizeOf_spec, treatAs.sizeOf_spec,
      castableAs.sizeOf_spec, castAs.sizeOf_spec, inlineFunction.sizeOf_spec,
      validate.sizeOf_spec, ordered.sizeOf_spec, unordered.sizeOf_spec, compDocument.sizeOf_spec,
      compText.sizeOf_spec, compComment.sizeOf_spec, delete.sizeOf_spec, assign.sizeOf_spec,
      exit.sizeOf_spec]
    omega

namespace Expr

/-- The nodes directly inside a node. -/
def children (e : Expr) : List Expr := e.kind.children

theorem sizeOf_children {e c : Expr} (h : c ∈ e.children) : sizeOf c < sizeOf e := by
  obtain ⟨kind, offset, module⟩ := e
  have : sizeOf c < sizeOf kind := ExprKind.sizeOf_lt h
  simp only [mk.sizeOf_spec]
  omega

/-- The number of nodes on the longest way down. -/
def height (e : Expr) : Nat :=
  1 + (e.children.attach.map fun ⟨c, h⟩ =>
    have := sizeOf_children h
    c.height).foldl max 0
termination_by sizeOf e

/-- All nodes of a tree, each before the nodes inside it. -/
def nodes (e : Expr) : List Expr :=
  e :: e.children.attach.flatMap fun ⟨c, h⟩ =>
    have := sizeOf_children h
    c.nodes
termination_by sizeOf e

end Expr

end XQuerySyntax
