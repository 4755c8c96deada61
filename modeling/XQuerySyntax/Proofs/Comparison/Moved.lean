import XQuerySyntax.Proofs.Tree.Contents

/-! Moved trees: the same tree at other places. Every offset in the tree goes where a function on
offsets puts it, those of bindings, attributes and constants in match options included. -/

namespace XQuerySyntax

variable {ε ε' : Type} {h h' : ε → ε'} {f : Nat → Nat}

/-- A list of parts is made over alike by functions that agree on what the parts hold. -/
theorem map_congr_flatMap {α β : Type} {parts : List α} {inside : α → List ε} {g g' : α → β}
    (hparts : ∀ a, (∀ c ∈ inside a, h c = h' c) → g a = g' a)
    (hc : ∀ c ∈ parts.flatMap inside, h c = h' c) : parts.map g = parts.map g' :=
  List.map_congr_left fun a ha =>
    hparts a fun c hca => hc c (List.mem_flatMap.2 ⟨a, ha, hca⟩)

theorem option_map_congr_flatMap {α β : Type} {part : Option α} {inside : α → List ε} {g g' : α → β}
    (hparts : ∀ a, (∀ c ∈ inside a, h c = h' c) → g a = g' a)
    (hc : ∀ c ∈ part.toList.flatMap inside, h c = h' c) : part.map g = part.map g' := by
  cases part with
  | none => rfl
  | some a => exact congrArg some (hparts a fun c hca => hc c (by simpa using hca))

theorem option_map_congr {part : Option ε} (hc : ∀ c ∈ part.toList, h c = h' c) :
    part.map h = part.map h' := by
  cases part with
  | none => rfl
  | some a => exact congrArg some (hc a (by simp))

/-! ### Full text -/

/-- The constant at another place. -/
def LiteralNode.moved (f : Nat → Nat) (k : LiteralNode) : LiteralNode :=
  { k with offset := f k.offset }

/-- The range with its bounds made over. -/
def FtRange.map (h : ε → ε') : FtRange ε → FtRange ε'
  | .exactly e => .exactly (h e)
  | .atLeast e => .atLeast (h e)
  | .atMost e => .atMost (h e)
  | .fromTo low high => .fromTo (h low) (h high)

theorem FtRange.map_congr {r : FtRange ε} (hc : ∀ c ∈ r.children, h c = h' c) :
    r.map h = r.map h' := by
  cases r <;> simp only [children, List.forall_mem_cons, List.not_mem_nil, false_implies,
    implies_true, and_true] at hc <;> simp only [map, hc]

theorem FtRange.map_id (r : FtRange ε) : r.map id = r := by
  cases r <;> rfl

/-- The thesaurus with its constants at other places. -/
def FtThesaurusId.moved (f : Nat → Nat) (t : FtThesaurusId) : FtThesaurusId :=
  { t with levels := t.levels.map (FtRange.map (LiteralNode.moved f)) }

/-- The use of thesauri with its constants at other places. -/
def FtThesaurusOption.moved (f : Nat → Nat) (t : FtThesaurusOption) : FtThesaurusOption :=
  { t with thesauri := t.thesauri.map (FtThesaurusId.moved f) }

/-- Match options with their constants at other places. -/
def FtMatchOptions.moved (f : Nat → Nat) (o : FtMatchOptions) : FtMatchOptions :=
  { o with thesaurus := o.thesaurus.map (FtThesaurusOption.moved f) }

theorem FtThesaurusId.moved_id (t : FtThesaurusId) : t.moved id = t := by
  have hlevels : FtRange.map (LiteralNode.moved id) = id := funext fun r => FtRange.map_id r
  unfold moved
  rw [hlevels, Option.map_id_fun, id]

theorem FtThesaurusOption.moved_id (t : FtThesaurusOption) : t.moved id = t := by
  have hid : FtThesaurusId.moved id = id := funext FtThesaurusId.moved_id
  unfold moved
  rw [hid, List.map_id_fun, id]

theorem FtMatchOptions.moved_id (o : FtMatchOptions) : o.moved id = o := by
  have hid : FtThesaurusOption.moved id = id := funext FtThesaurusOption.moved_id
  unfold moved
  rw [hid, Option.map_id_fun, id]

/-- The condition with its expressions made over. -/
def FtPosFilter.map (h : ε → ε') : FtPosFilter ε → FtPosFilter ε'
  | .ordered => .ordered
  | .window size unit => .window (h size) unit
  | .distance range unit => .distance (range.map h) unit
  | .scope same unit => .scope same unit
  | .atStart => .atStart
  | .atEnd => .atEnd
  | .entireContent => .entireContent

theorem FtPosFilter.map_congr {p : FtPosFilter ε} (hc : ∀ c ∈ p.children, h c = h' c) :
    p.map h = p.map h' := by
  cases p with
  | window size unit => exact congrArg (FtPosFilter.window · unit) (hc size List.mem_cons_self)
  | distance range unit => exact congrArg (FtPosFilter.distance · unit) (FtRange.map_congr hc)
  | _ => rfl

theorem FtPosFilter.map_id (p : FtPosFilter ε) : p.map id = p := by
  cases p <;> simp only [map, id, FtRange.map_id]

/-- The selection with its expressions made over and its constants at other places. -/
def FtSelection.map (h : ε → ε') (f : Nat → Nat) : FtSelection ε → FtSelection ε'
  | .or operands => .or (operands.map fun s => s.map h f)
  | .and operands => .and (operands.map fun s => s.map h f)
  | .mildNot operands => .mildNot (operands.map fun s => s.map h f)
  | .not operand => .not (operand.map h f)
  | .words text mode times => .words text mode (times.map (FtRange.map h))
  | .computedWords source mode times => .computedWords (h source) mode (times.map (FtRange.map h))
  | .withOptions selection options weight =>
    .withOptions (selection.map h f) (options.moved f) (weight.map h)
  | .positional selection filters =>
    .positional (selection.map h f) (filters.map (FtPosFilter.map h))
  | .extension pragmas none => .extension pragmas none
  | .extension pragmas (some selection) => .extension pragmas (some (selection.map h f))

theorem FtSelection.map_congr {s : FtSelection ε} (hc : ∀ c ∈ s.children, h c = h' c) :
    s.map h f = s.map h' f := by
  match s with
  | .or operands | .and operands | .mildNot operands =>
    simp only [children] at hc
    have : (operands.map fun s => s.map h f) = operands.map fun s => s.map h' f :=
      List.map_congr_left fun t ht =>
        have := List.sizeOf_lt_of_mem ht
        map_congr fun c hct => hc c (List.mem_flatMap.2 ⟨t, ht, hct⟩)
    simp only [map, this]
  | .not operand =>
    simp only [children] at hc
    simp only [map, map_congr hc]
  | .words _ _ times =>
    simp only [children] at hc
    simp only [map, option_map_congr_flatMap (fun _ => FtRange.map_congr) hc]
  | .computedWords source _ times =>
    simp only [children, List.forall_mem_cons] at hc
    simp only [map, hc.1, option_map_congr_flatMap (fun _ => FtRange.map_congr) hc.2]
  | .withOptions selection _ weight =>
    simp only [children, List.forall_mem_append] at hc
    simp only [map, map_congr hc.1, option_map_congr hc.2]
  | .positional selection filters =>
    simp only [children, List.forall_mem_append] at hc
    simp only [map, map_congr hc.1, map_congr_flatMap (fun _ => FtPosFilter.map_congr) hc.2]
  | .extension _ none => simp only [map]
  | .extension _ (some selection) =>
    simp only [children] at hc
    simp only [map, map_congr hc]
termination_by sizeOf s

theorem FtSelection.map_id (s : FtSelection ε) : s.map id id = s := by
  have hrange : FtRange.map (id : ε → ε) = id := funext FtRange.map_id
  have hfilter : FtPosFilter.map (id : ε → ε) = id := funext FtPosFilter.map_id
  match s with
  | .or operands | .and operands | .mildNot operands =>
    have : (operands.map fun s => s.map id id) = operands :=
      (List.map_congr_left fun t ht =>
        have := List.sizeOf_lt_of_mem ht
        map_id t).trans (List.map_id operands)
    simp only [map, this]
  | .not operand => simp only [map, map_id operand]
  | .words _ _ times => simp only [map, hrange, Option.map_id_fun, id]
  | .computedWords source _ times => simp only [map, hrange, Option.map_id_fun, id]
  | .withOptions selection options weight =>
    simp only [map, map_id selection, options.moved_id, Option.map_id_fun, id]
  | .positional selection filters =>
    simp only [map, map_id selection, hfilter, List.map_id_fun, id]
  | .extension _ none => simp only [map]
  | .extension _ (some selection) => simp only [map, map_id selection]
termination_by sizeOf s

/-! ### Constructors -/

/-- The part of an attribute value with its expression made over. -/
def AttributeValuePart.map (h : ε → ε') : AttributeValuePart ε → AttributeValuePart ε'
  | .text t => .text t
  | .enclosed e => .enclosed (h e)

theorem AttributeValuePart.map_congr {p : AttributeValuePart ε} (hc : ∀ c ∈ p.children, h c = h' c) :
    p.map h = p.map h' := by
  cases p with
  | text => rfl
  | enclosed e => exact congrArg AttributeValuePart.enclosed (hc e List.mem_cons_self)

theorem AttributeValuePart.map_id (p : AttributeValuePart ε) : p.map id = p := by
  cases p <;> rfl

/-- The attribute at another place, with its expressions made over. -/
def DirAttribute.map (h : ε → ε') (f : Nat → Nat) (a : DirAttribute ε) : DirAttribute ε' where
  name := a.name
  value := a.value.map (AttributeValuePart.map h)
  offset := f a.offset

theorem DirAttribute.map_congr {a : DirAttribute ε} (hc : ∀ c ∈ a.children, h c = h' c) :
    a.map h f = a.map h' f := by
  simp only [map, map_congr_flatMap (fun _ => AttributeValuePart.map_congr) hc]

theorem DirAttribute.map_id (a : DirAttribute ε) : a.map id id = a := by
  have hpart : AttributeValuePart.map (id : ε → ε) = id := funext AttributeValuePart.map_id
  simp only [map, hpart, List.map_id_fun, id]

/-- The part of element content with its expression made over. -/
def DirContent.map (h : ε → ε') : DirContent ε → DirContent ε'
  | .text t => .text t
  | .literalSection t => .literalSection t
  | .enclosed e => .enclosed (h e)
  | .node e => .node (h e)

theorem DirContent.map_congr {d : DirContent ε} (hc : ∀ c ∈ d.children, h c = h' c) :
    d.map h = d.map h' := by
  cases d with
  | text | literalSection => rfl
  | enclosed e => exact congrArg DirContent.enclosed (hc e List.mem_cons_self)
  | node e => exact congrArg DirContent.node (hc e List.mem_cons_self)

theorem DirContent.map_id (d : DirContent ε) : d.map id = d := by
  cases d <;> rfl

/-- The element with its attributes at other places, and its expressions made over. -/
def DirElement.map (h : ε → ε') (f : Nat → Nat) (e : DirElement ε) : DirElement ε' where
  name := e.name
  attributes := e.attributes.map (DirAttribute.map h f)
  namespaces := e.namespaces
  content := e.content.map (DirContent.map h)
  selfClosing := e.selfClosing

theorem DirElement.map_congr {e : DirElement ε} (hc : ∀ c ∈ e.children, h c = h' c) :
    e.map h f = e.map h' f := by
  simp only [children, List.forall_mem_append] at hc
  simp only [map, map_congr_flatMap (fun _ => DirAttribute.map_congr) hc.1,
    map_congr_flatMap (fun _ => DirContent.map_congr) hc.2]

theorem DirElement.map_id (e : DirElement ε) : e.map id id = e := by
  have hattribute : DirAttribute.map (id : ε → ε) id = id := funext DirAttribute.map_id
  have hcontent : DirContent.map (id : ε → ε) = id := funext DirContent.map_id
  simp only [map, hattribute, hcontent, List.map_id_fun, id]

/-- The computed name with its expression made over. -/
def ComputedName.map (h : ε → ε') : ComputedName ε → ComputedName ε'
  | .literal name => .literal name
  | .expr e => .expr (h e)

theorem ComputedName.map_congr {n : ComputedName ε} (hc : ∀ c ∈ n.children, h c = h' c) :
    n.map h = n.map h' := by
  cases n with
  | literal => rfl
  | expr e => exact congrArg ComputedName.expr (hc e List.mem_cons_self)

theorem ComputedName.map_id (n : ComputedName ε) : n.map id = n := by
  cases n <;> rfl

/-! ### Clauses -/

/-- The binding at another place, with its expression made over. -/
def ForBinding.map (h : ε → ε') (f : Nat → Nat) (b : ForBinding ε) : ForBinding ε' :=
  { b with source := h b.source, offset := f b.offset }

/-- The binding at another place, with its expression made over. -/
def LetBinding.map (h : ε → ε') (f : Nat → Nat) (b : LetBinding ε) : LetBinding ε' :=
  { b with value := h b.value, offset := f b.offset }

/-- The window condition with its expression made over. -/
def WindowCondition.map (h : ε → ε') (w : WindowCondition ε) : WindowCondition ε' :=
  { w with condition := h w.condition }

/-- The grouping key with its expression made over. -/
def GroupingSpec.map (h : ε → ε') (g : GroupingSpec ε) : GroupingSpec ε' :=
  { g with value := g.value.map h }

/-- The ordering key with its expression made over. -/
def OrderSpec.map (h : ε → ε') (s : OrderSpec ε) : OrderSpec ε' :=
  { s with key := h s.key }

/-- The clause with its bindings at other places, and its expressions made over. -/
def Clause.map (h : ε → ε') (f : Nat → Nat) : Clause ε → Clause ε'
  | .forEach bindings => .forEach (bindings.map (ForBinding.map h f))
  | .letBe bindings => .letBe (bindings.map (LetBinding.map h f))
  | .window kind name typeDecl source start finish =>
    .window kind name typeDecl (h source) (start.map h) (finish.map (WindowCondition.map h))
  | .count name => .count name
  | .filter condition => .filter (h condition)

/-- The query with its bindings at other places, and its expressions made over. -/
def Flwor.map (h : ε → ε') (f : Nat → Nat) (q : Flwor ε) : Flwor ε' where
  clauses := q.clauses.map (Clause.map h f)
  condition := q.condition.map h
  groupBy := q.groupBy.map (GroupingSpec.map h)
  postGroup := q.postGroup.map (Clause.map h f)
  stable := q.stable
  orderBy := q.orderBy.map (OrderSpec.map h)
  result := h q.result

theorem ForBinding.map_congr {b : ForBinding ε} (hc : ∀ c ∈ [b.source], h c = h' c) :
    b.map h f = b.map h' f := by
  simp only [map, hc b.source List.mem_cons_self]

theorem LetBinding.map_congr {b : LetBinding ε} (hc : ∀ c ∈ [b.value], h c = h' c) :
    b.map h f = b.map h' f := by
  simp only [map, hc b.value List.mem_cons_self]

theorem WindowCondition.map_congr {w : WindowCondition ε} (hc : ∀ c ∈ w.children, h c = h' c) :
    w.map h = w.map h' := by
  simp only [map, hc w.condition List.mem_cons_self]

theorem GroupingSpec.map_congr {g : GroupingSpec ε} (hc : ∀ c ∈ g.children, h c = h' c) :
    g.map h = g.map h' := by
  simp only [map, option_map_congr hc]

theorem OrderSpec.map_congr {s : OrderSpec ε} (hc : ∀ c ∈ [s.key], h c = h' c) :
    s.map h = s.map h' := by
  simp only [map, hc s.key List.mem_cons_self]

theorem Clause.map_congr {k : Clause ε} (hc : ∀ c ∈ k.children, h c = h' c) :
    k.map h f = k.map h' f := by
  cases k with
  | forEach bindings =>
    exact congrArg Clause.forEach (map_congr_flatMap (fun _ => ForBinding.map_congr) hc)
  | letBe bindings =>
    exact congrArg Clause.letBe (map_congr_flatMap (fun _ => LetBinding.map_congr) hc)
  | window kind name typeDecl source start finish =>
    simp only [children, List.cons_append, List.forall_mem_cons, List.forall_mem_append] at hc
    simp only [map, hc.1, WindowCondition.map_congr hc.2.1,
      option_map_congr_flatMap (fun _ => WindowCondition.map_congr) hc.2.2]
  | count => rfl
  | filter condition => exact congrArg Clause.filter (hc condition List.mem_cons_self)

theorem Flwor.map_congr {q : Flwor ε} (hc : ∀ c ∈ q.children, h c = h' c) :
    q.map h f = q.map h' f := by
  simp only [children, List.forall_mem_append, List.forall_mem_singleton] at hc
  obtain ⟨⟨⟨⟨⟨hclauses, hcondition⟩, hgroup⟩, hpost⟩, horder⟩, hresult⟩ := hc
  simp only [map, map_congr_flatMap (fun _ => Clause.map_congr) hclauses,
    option_map_congr hcondition, map_congr_flatMap (fun _ => GroupingSpec.map_congr) hgroup,
    map_congr_flatMap (fun _ => Clause.map_congr) hpost,
    map_congr_flatMap (fun _ => OrderSpec.map_congr) horder, hresult]

theorem Clause.map_id (k : Clause ε) : k.map id id = k := by
  have hfor : ForBinding.map (id : ε → ε) id = id := rfl
  have hlet : LetBinding.map (id : ε → ε) id = id := rfl
  have hwindow : WindowCondition.map (id : ε → ε) = id := rfl
  cases k <;> simp only [map, hfor, hlet, hwindow, List.map_id_fun, Option.map_id_fun, id]

theorem Flwor.map_id (q : Flwor ε) : q.map id id = q := by
  have hclause : Clause.map (id : ε → ε) id = id := funext Clause.map_id
  have hgroup : GroupingSpec.map (id : ε → ε) = id := by
    funext g
    simp only [GroupingSpec.map, Option.map_id_fun, id]
  have horder : OrderSpec.map (id : ε → ε) = id := rfl
  simp only [map, hclause, hgroup, horder, List.map_id_fun, Option.map_id_fun, id]

/-! ### Branches and bindings -/

/-- The branch with its expressions made over. -/
def SwitchCase.map (h : ε → ε') (b : SwitchCase ε) : SwitchCase ε' :=
  ⟨b.operands.map h, h b.result⟩

/-- The branch with its expression made over. -/
def TypeswitchCase.map (h : ε → ε') (b : TypeswitchCase ε) : TypeswitchCase ε' :=
  { b with result := h b.result }

/-- The handler with its expression made over. -/
def CatchClause.map (h : ε → ε') (k : CatchClause ε) : CatchClause ε' :=
  { k with body := h k.body }

/-- The binding with its expression made over. -/
def VariableBinding.map (h : ε → ε') (b : VariableBinding ε) : VariableBinding ε' :=
  { b with value := h b.value }

/-- The variable of a block with its expression made over. -/
def BlockVarDecl.map (h : ε → ε') (d : BlockVarDecl ε) : BlockVarDecl ε' :=
  { d with value := d.value.map h }

theorem SwitchCase.map_congr {b : SwitchCase ε} (hc : ∀ c ∈ b.children, h c = h' c) :
    b.map h = b.map h' := by
  simp only [children, List.forall_mem_append, List.forall_mem_singleton] at hc
  simp only [map, List.map_congr_left hc.1, hc.2]

theorem TypeswitchCase.map_congr {b : TypeswitchCase ε} (hc : ∀ c ∈ b.children, h c = h' c) :
    b.map h = b.map h' := by
  simp only [map, hc b.result List.mem_cons_self]

theorem CatchClause.map_congr {k : CatchClause ε} (hc : ∀ c ∈ k.children, h c = h' c) :
    k.map h = k.map h' := by
  simp only [map, hc k.body List.mem_cons_self]

theorem VariableBinding.map_congr {b : VariableBinding ε} (hc : ∀ c ∈ b.children, h c = h' c) :
    b.map h = b.map h' := by
  simp only [map, hc b.value List.mem_cons_self]

theorem BlockVarDecl.map_congr {d : BlockVarDecl ε} (hc : ∀ c ∈ d.children, h c = h' c) :
    d.map h = d.map h' := by
  simp only [map, option_map_congr hc]

theorem SwitchCase.map_id (b : SwitchCase ε) : b.map id = b := by
  simp only [map, List.map_id_fun, id]

theorem BlockVarDecl.map_id (d : BlockVarDecl ε) : d.map id = d := by
  simp only [map, Option.map_id_fun, id]

/-! ### Expressions -/

/-- The form with its bindings, attributes and constants at other places, and the nodes directly inside
it made over. -/
def ExprKind.map (h : ε → ε') (f : Nat → Nat) : ExprKind ε → ExprKind ε'
  | .literal value => .literal value
  | .contextItem => .contextItem
  | .varRef name => .varRef name
  | .sequence items => .sequence (items.map h)
  | .binary op left right => .binary op (h left) (h right)
  | .range first last => .range (h first) (h last)
  | .unary op operand => .unary op (h operand)
  | .instanceOf e type => .instanceOf (h e) type
  | .treatAs e type => .treatAs (h e) type
  | .castableAs e type => .castableAs (h e) type
  | .castAs e type => .castAs (h e) type
  | .path start steps => .path start (steps.map h)
  | .step axis test predicates => .step axis test (predicates.map h)
  | .filter base predicates => .filter (h base) (predicates.map h)
  | .functionCall name args => .functionCall name (args.map h)
  | .argumentPlaceholder => .argumentPlaceholder
  | .dynamicCall function args => .dynamicCall (h function) (args.map h)
  | .namedFunctionRef name arity => .namedFunctionRef name arity
  | .inlineFunction annotations params returnType body =>
    .inlineFunction annotations params returnType (h body)
  | .flwor query => .flwor (query.map h f)
  | .quantified quantifier bindings satisfies =>
    .quantified quantifier (bindings.map (VariableBinding.map h)) (h satisfies)
  | .ifThenElse condition thenExpr elseExpr => .ifThenElse (h condition) (h thenExpr) (h elseExpr)
  | .switch operand cases default =>
    .switch (h operand) (cases.map (SwitchCase.map h)) (h default)
  | .typeswitch operand cases name default =>
    .typeswitch (h operand) (cases.map (TypeswitchCase.map h)) name (h default)
  | .tryCatch body catches => .tryCatch (h body) (catches.map (CatchClause.map h))
  | .validate mode typeName e => .validate mode typeName (h e)
  | .extension pragmas e => .extension pragmas (e.map h)
  | .ordered e => .ordered (h e)
  | .unordered e => .unordered (h e)
  | .dirElement element => .dirElement (element.map h f)
  | .dirComment t => .dirComment t
  | .dirPi target content => .dirPi target content
  | .compDocument content => .compDocument (h content)
  | .compElement name content => .compElement (name.map h) (content.map h)
  | .compAttribute name content => .compAttribute (name.map h) (content.map h)
  | .compNamespace name uri => .compNamespace (name.map h) (h uri)
  | .compText content => .compText (h content)
  | .compComment content => .compComment (h content)
  | .compPi target content => .compPi (target.map h) (content.map h)
  | .ftContains e selection withoutContent =>
    .ftContains (h e) (selection.map h f) (withoutContent.map h)
  | .insert source position target => .insert (h source) position (h target)
  | .delete target => .delete (h target)
  | .replace valueOf target replacement => .replace valueOf (h target) (h replacement)
  | .rename target newName => .rename (h target) (h newName)
  | .transform bindings modify returnExpr =>
    .transform (bindings.map (VariableBinding.map h)) (h modify) (h returnExpr)
  | .block declarations body => .block (declarations.map (BlockVarDecl.map h)) (body.map h)
  | .assign name value => .assign name (h value)
  | .whileLoop condition body => .whileLoop (h condition) (h body)
  | .exit value => .exit (h value)
  | .breakLoop => .breakLoop
  | .continueLoop => .continueLoop

theorem ExprKind.map_congr {k : ExprKind ε} (hc : ∀ c ∈ k.children, h c = h' c) :
    k.map h f = k.map h' f := by
  cases k <;> simp only [children, List.cons_append, List.forall_mem_cons, List.forall_mem_append]
    at hc
  case sequence | path | step | functionCall => simp only [map, List.map_congr_left hc]
  case filter | dynamicCall => simp only [map, hc.1, List.map_congr_left hc.2]
  case flwor => simp only [map, Flwor.map_congr hc]
  case quantified =>
    simp only [map, map_congr_flatMap (fun _ => VariableBinding.map_congr) hc.1, hc.2]
  case switch =>
    simp only [map, hc.1, map_congr_flatMap (fun _ => SwitchCase.map_congr) hc.2.1, hc.2.2]
  case typeswitch =>
    simp only [map, hc.1, map_congr_flatMap (fun _ => TypeswitchCase.map_congr) hc.2.1, hc.2.2]
  case tryCatch =>
    simp only [map, hc.1, map_congr_flatMap (fun _ => CatchClause.map_congr) hc.2]
  case extension => simp only [map, option_map_congr hc]
  case dirElement => simp only [map, DirElement.map_congr hc]
  case compElement | compAttribute | compPi =>
    simp only [map, ComputedName.map_congr hc.1, option_map_congr hc.2]
  case compNamespace => simp only [map, ComputedName.map_congr hc.1, hc.2]
  case ftContains =>
    simp only [map, hc.1, FtSelection.map_congr hc.2.1, option_map_congr hc.2.2]
  case transform =>
    simp only [map, map_congr_flatMap (fun _ => VariableBinding.map_congr) hc.1, hc.2]
  case block =>
    simp only [map, map_congr_flatMap (fun _ => BlockVarDecl.map_congr) hc.1,
      List.map_congr_left hc.2]
  all_goals simp only [map, hc]

theorem ExprKind.map_id (k : ExprKind ε) : k.map id id = k := by
  have hswitch : SwitchCase.map (id : ε → ε) = id := funext SwitchCase.map_id
  have htypeswitch : TypeswitchCase.map (id : ε → ε) = id := rfl
  have hcatch : CatchClause.map (id : ε → ε) = id := rfl
  have hbinding : VariableBinding.map (id : ε → ε) = id := rfl
  have hblock : BlockVarDecl.map (id : ε → ε) = id := funext BlockVarDecl.map_id
  cases k <;> simp only [map, hswitch, htypeswitch, hcatch, hbinding, hblock, Flwor.map_id,
    DirElement.map_id, ComputedName.map_id, FtSelection.map_id, List.map_id_fun, Option.map_id_fun, id]

namespace Expr

/-- The uppermost levels of a tree at other places. -/
def levelsMoved (f : Nat → Nat) : Nat → Expr → Expr
  | 0, e => e
  | n + 1, e => mk (e.kind.map (levelsMoved f n) f) (f e.offset) e.module

/-- The tree at other places. -/
def moved (f : Nat → Nat) (e : Expr) : Expr := levelsMoved f e.height e

theorem le_foldl_max {heights : List Nat} {n : Nat} (start : Nat) (hn : n ∈ heights ∨ n ≤ start) :
    n ≤ heights.foldl max start := by
  induction heights generalizing start with
  | nil => simpa using hn
  | cons k ks ih =>
    refine ih _ ?_
    rcases hn with hn | hn
    · rcases List.mem_cons.1 hn with rfl | hn
      · exact .inr (Nat.le_max_right start n)
      · exact .inl hn
    · exact .inr (Nat.le_trans hn (Nat.le_max_left start k))

theorem height_lt {e c : Expr} (hc : c ∈ e.children) : c.height < e.height := by
  have hmem : c.height ∈ e.children.attach.map fun d => d.1.height :=
    List.mem_map.2 ⟨⟨c, hc⟩, List.mem_attach _ _, rfl⟩
  have hle := le_foldl_max 0 (.inl hmem)
  rw [height.eq_def e]
  exact Nat.lt_of_le_of_lt hle (Nat.lt_one_add_iff.2 (Nat.le_refl _))

theorem levelsMoved_congr {n m : Nat} {e : Expr} (hn : e.height ≤ n) (hm : e.height ≤ m) :
    levelsMoved f n e = levelsMoved f m e := by
  induction n generalizing m e with
  | zero =>
    rw [height] at hn
    omega
  | succ n ih =>
    cases m with
    | zero =>
      rw [height] at hm
      omega
    | succ m =>
      have hchildren : ∀ c ∈ e.kind.children, levelsMoved f n c = levelsMoved f m c := by
        intro c hc
        have := height_lt (e := e) hc
        exact ih (by omega) (by omega)
      rw [levelsMoved, levelsMoved, ExprKind.map_congr hchildren]

theorem moved_mk (kind : ExprKind Expr) (offset : Nat) (module : ModuleId) :
    (mk kind offset module).moved f = mk (kind.map (moved f) f) (f offset) module := by
  have hchildren : ∀ c ∈ kind.children,
      levelsMoved f (mk kind offset module).height c = c.moved f := fun c hc =>
    levelsMoved_congr (Nat.le_of_lt (height_lt (e := mk kind offset module) hc)) (Nat.le_refl _)
  rw [← ExprKind.map_congr hchildren]
  exact levelsMoved_congr (Nat.le_refl _) (Nat.le_succ _)

@[simp]
theorem offset_moved (e : Expr) : (e.moved f).offset = f e.offset := by
  obtain ⟨kind, offset, module⟩ := e
  rw [moved_mk]
  rfl

/-- A tree stays as it is if nothing moves. -/
theorem moved_id (e : Expr) : e.moved id = e := by
  obtain ⟨kind, offset, module⟩ := e
  have hchildren : ∀ c ∈ kind.children, c.moved id = id c := by
    intro c hc
    have : sizeOf c < sizeOf (mk kind offset module) := sizeOf_children hc
    exact moved_id c
  rw [moved_mk, ExprKind.map_congr hchildren, ExprKind.map_id, id]
termination_by sizeOf e
decreasing_by exact this

end Expr

end XQuerySyntax
