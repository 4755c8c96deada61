import XQuerySyntax.Proofs.Tree.Contents

/-! Trees whose nodes stand in front of their parts. The node of an operator stands at its operator, and
so behind its first operand. A sequence, a relative path, a filter and a call of a value stand where their
first part stands, and so behind an operand too if that part does. Every other node is in front of all
that is inside it. -/

namespace XQuerySyntax

variable {ε : Type}

/-! ### Where nodes stand -/

/-- Whether nodes of the form stand at an operator, behind its first operand. -/
def ExprKind.standsAtOperator : ExprKind ε → Bool
  | .binary .. | .range .. | .instanceOf .. | .treatAs .. | .castableAs .. | .castAs ..
  | .ftContains .. => true
  | _ => false

/-- The first part of a form whose nodes stand where that part stands. -/
def ExprKind.first? : ExprKind ε → Option ε
  | .sequence (e :: _) | .path .relative (e :: _) | .filter e _ | .dynamicCall e _ => some e
  | _ => none

theorem ExprKind.first?_mem_children [SizeOf ε] {k : ExprKind ε} {e : ε} (h : k.first? = some e) :
    e ∈ k.children := by
  unfold first? at h
  split at h <;> cases h <;> exact List.mem_cons_self

namespace Expr

/-- Whether the first part of an expression is the operand of an operator that it stands at. -/
def beginsWithOperand (e : Expr) : Bool :=
  e.kind.standsAtOperator || match h : e.kind.first? with
    | some first =>
      have := sizeOf_children (ExprKind.first?_mem_children h)
      first.beginsWithOperand
    | none => false
termination_by sizeOf e

variable {kind : ExprKind Expr} {offset : Nat} {module : ModuleId}

theorem beginsWithOperand_of_standsAtOperator (h : kind.standsAtOperator = true) :
    (mk kind offset module).beginsWithOperand = true := by
  have hkind : (mk kind offset module).kind.standsAtOperator = true := h
  rw [beginsWithOperand, hkind, Bool.true_or]

/-- A node that stands where its first part stands begins as this part begins. -/
theorem beginsWithOperand_of_first {first : Expr} (hkind : kind.standsAtOperator = false)
    (h : kind.first? = some first) :
    (mk kind offset module).beginsWithOperand = first.beginsWithOperand := by
  have hkind : (mk kind offset module).kind.standsAtOperator = false := hkind
  have h : (mk kind offset module).kind.first? = some first := h
  rw [beginsWithOperand, hkind, Bool.false_or]
  split <;> rename_i hs <;> rw [h] at hs <;> cases hs
  rfl

/-- Any other node does not begin with an operand. -/
theorem beginsWithOperand_of_none (hkind : kind.standsAtOperator = false) (h : kind.first? = none) :
    (mk kind offset module).beginsWithOperand = false := by
  have hkind : (mk kind offset module).kind.standsAtOperator = false := hkind
  have h : (mk kind offset module).kind.first? = none := h
  rw [beginsWithOperand, hkind, Bool.false_or]
  split <;> rename_i hs
  · rw [h] at hs
    cases hs
  · rfl

/-- Where the nodes of an expression stand, and the constants in their match options. -/
def starts (e : Expr) : List Nat :=
  e.nodes.flatMap fun n =>
    n.offset :: n.kind.matchOptions.flatMap fun options => options.constants.map LiteralNode.offset

theorem forall_mem_starts {p : Nat → Prop} :
    (∀ place ∈ (mk kind offset module).starts, p place) ↔
      p offset ∧ (∀ options ∈ kind.matchOptions, ∀ c ∈ options.constants, p c.offset) ∧
        ∀ e ∈ kind.children, ∀ place ∈ e.starts, p place := by
  have hnode : (mk kind offset module).starts =
      (offset :: kind.matchOptions.flatMap fun options => options.constants.map LiteralNode.offset) ++
        kind.children.flatMap starts := by
    rw [starts, nodes, List.flatMap_cons]
    refine congrArg _ ?_
    simp only [List.flatMap_assoc, List.flatMap_subtype, List.unattach_attach]
    rfl
  rw [hnode, List.forall_mem_append, List.forall_mem_cons, List.forall_mem_flatMap,
    List.forall_mem_flatMap, and_assoc]
  simp only [List.forall_mem_map]

theorem offset_mem_starts {e n : Expr} (h : n ∈ e.nodes) : n.offset ∈ e.starts :=
  List.mem_flatMap.2 ⟨n, h, List.mem_cons_self⟩

/-- Whether a node is in front of all that is inside it. -/
def IsInFront (n : Expr) : Prop := ∀ place ∈ n.starts, n.offset ≤ place

end Expr

/-! ### Trees in order -/

/-- A tree behind a place, whose nodes are in front of their parts unless they begin with an operand. -/
structure Expr.InOrder (b : Nat) (e : Expr) : Prop where
  behind : ∀ place ∈ e.starts, b ≤ place
  nodes : ∀ n ∈ e.nodes, n.beginsWithOperand = false ↔ n.IsInFront

/-- The expressions are behind a place and in order. -/
abbrev InOrderAll (b : Nat) (es : List Expr) : Prop := ∀ e ∈ es, e.InOrder b

/-- The form of a node that stands in front of its parts, where these are behind a place and in order. -/
structure ExprKind.InOrder (b : Nat) (k : ExprKind Expr) : Prop where
  children : InOrderAll b k.children
  constants : ∀ options ∈ k.matchOptions, ∀ c ∈ options.constants, b ≤ c.offset
  plain : k.standsAtOperator = false ∧ k.first? = none

/-- The form of a node that stands at an operator behind an operand. -/
structure ExprKind.AtOperator (b : Nat) (left : Expr) (k : ExprKind Expr) : Prop where
  children : InOrderAll b k.children
  constants : ∀ options ∈ k.matchOptions, ∀ c ∈ options.constants, b ≤ c.offset
  operator : k.standsAtOperator = true
  left : left ∈ k.children

/-- The form of a node that stands where its first part stands. -/
structure ExprKind.Follows (first : Expr) (rest : List Expr) (k : ExprKind Expr) : Prop where
  leading : k.standsAtOperator = false ∧ k.first? = some first
  children : k.children = first :: rest
  options : k.matchOptions = []

theorem Expr.InOrder.mono {b b' : Nat} {e : Expr} (h : e.InOrder b) (hb : b' ≤ b) : e.InOrder b' :=
  ⟨fun place hp => Nat.le_trans hb (h.behind place hp), h.nodes⟩

theorem InOrderAll.mono {b b' : Nat} {es : List Expr} (h : InOrderAll b es) (hb : b' ≤ b) :
    InOrderAll b' es := fun e he => (h e he).mono hb

theorem ExprKind.InOrder.mono {b b' : Nat} {k : ExprKind Expr} (h : k.InOrder b) (hb : b' ≤ b) :
    k.InOrder b' :=
  ⟨h.children.mono hb, fun options ho c hc => Nat.le_trans hb (h.constants options ho c hc), h.plain⟩

namespace Expr

theorem InOrder.offset {b : Nat} {e : Expr} (h : e.InOrder b) : b ≤ e.offset :=
  h.behind _ (offset_mem_starts (mem_nodes.2 (.inl rfl)))

variable {b offset : Nat} {first left : Expr} {kind : ExprKind Expr} {module : ModuleId}

/-- A node is in order if its parts are and if it is where it should be itself. -/
theorem inOrder_mk (hchildren : InOrderAll b kind.children)
    (hconstants : ∀ options ∈ kind.matchOptions, ∀ c ∈ options.constants, b ≤ c.offset) (hb : b ≤ offset)
    (hnode : (mk kind offset module).beginsWithOperand = false ↔ (mk kind offset module).IsInFront) :
    (mk kind offset module).InOrder b := by
  refine ⟨forall_mem_starts.2 ⟨hb, hconstants, fun e he => (hchildren e he).behind⟩, fun n hn => ?_⟩
  rcases mem_nodes.1 hn with rfl | ⟨c, hc, hn⟩
  · exact hnode
  · exact (hchildren c hc).nodes n hn

/-- A node in front of all its parts. -/
theorem inOrder_node (h : kind.InOrder offset) (hb : b ≤ offset) : (mk kind offset module).InOrder b := by
  have hoffset : (mk kind offset module).InOrder offset := by
    refine inOrder_mk h.children h.constants (Nat.le_refl _) (iff_of_true ?_ ?_)
    · exact beginsWithOperand_of_none h.plain.1 h.plain.2
    · exact forall_mem_starts.2 ⟨Nat.le_refl _, h.constants, fun e he => (h.children e he).behind⟩
  exact hoffset.mono hb

/-- A node at an operator, behind its first operand. -/
theorem inOrder_operator (h : kind.AtOperator b left) (hleft : left.offset < offset) :
    (mk kind offset module).InOrder b := by
  have hb : b ≤ offset := Nat.le_trans (h.children left h.left).offset (Nat.le_of_lt hleft)
  refine inOrder_mk h.children h.constants hb (iff_of_false ?_ fun hfront => ?_)
  · rw [beginsWithOperand_of_standsAtOperator h.operator]
    exact Bool.false_ne_true.symm
  · have hmem : left ∈ (mk kind offset module).nodes :=
      mem_nodes.2 (.inr ⟨left, h.left, mem_nodes.2 (.inl rfl)⟩)
    exact Nat.not_le_of_lt hleft (hfront _ (offset_mem_starts hmem))

/-- A node that stands where its first part stands is in front of its parts just if this part is. -/
theorem inOrder_leading {rest : List Expr} (h : kind.Follows first rest) (hfirst : first.InOrder b)
    (hrest : InOrderAll first.offset rest) : (mk kind first.offset module).InOrder b := by
  have hconstants (place : Nat) :
      ∀ options ∈ kind.matchOptions, ∀ c ∈ options.constants, place ≤ c.offset := by
    rw [h.options]
    exact List.forall_mem_nil _
  refine inOrder_mk ?_ (hconstants b) hfirst.offset ?_
  · rw [h.children]
    exact List.forall_mem_cons.2 ⟨hfirst, hrest.mono hfirst.offset⟩
  · rw [beginsWithOperand_of_first h.leading.1 h.leading.2, hfirst.nodes first (mem_nodes.2 (.inl rfl))]
    constructor
    · intro hfront
      refine forall_mem_starts.2 ⟨Nat.le_refl _, hconstants _, ?_⟩
      rw [h.children]
      exact List.forall_mem_cons.2 ⟨hfront, fun e he => (hrest e he).behind⟩
    · intro hfront
      have hchildren := (forall_mem_starts.1 hfront).2.2
      rw [h.children] at hchildren
      exact (List.forall_mem_cons.1 hchildren).1

end Expr

end XQuerySyntax
