import XQuerySyntax.Proofs.Comparison.Agree

/-! What two runs have in common of the trees that they build: these are the same when offsets go where
they belong. A tree shows that the dropped extension has been used if it uses the extension. -/

namespace XQuerySyntax.Comparison

variable {S : Comparison} {α β : Type}

theorem congrArg₃ {γ δ : Type} (f : α → β → γ → δ) {a a' : α} {b b' : β} {c c' : γ} (ha : a = a')
    (hb : b = b') (hc : c = c') : f a b c = f a' b' c' := by rw [ha, hb, hc]

/-! ### Lists, options and pairs -/

section

variable (L : S.Likeness α) (M : S.Likeness β)

@[simp]
theorem owes_plain (a : α) : (Likeness.plain : S.Likeness α).owes a ↔ False := Iff.rfl

@[simp]
theorem owes_offset (n : Nat) : S.offset.owes n ↔ False := Iff.rfl

@[simp]
theorem owes_none : L.option.owes none ↔ False := by simp [Likeness.option]

@[simp]
theorem owes_some (a : α) : L.option.owes (some a) ↔ L.owes a := by simp [Likeness.option]

@[simp]
theorem owes_nil : L.list.owes [] ↔ False := by simp [Likeness.list]

@[simp]
theorem owes_cons (a : α) (as : List α) : L.list.owes (a :: as) ↔ L.owes a ∨ L.list.owes as := by
  simp [Likeness.list]

@[simp]
theorem owes_append (as bs : List α) : L.list.owes (as ++ bs) ↔ L.list.owes as ∨ L.list.owes bs := by
  simp [Likeness.list, or_and_right, exists_or]

theorem owes_flatMap (f : β → List α) (bs : List β) :
    L.list.owes (bs.flatMap f) ↔ ∃ b ∈ bs, L.list.owes (f b) := by
  simp only [Likeness.list, List.mem_flatMap]
  constructor
  · rintro ⟨a, ⟨b, hb, ha⟩, ho⟩
    exact ⟨b, hb, a, ha, ho⟩
  · rintro ⟨b, hb, a, ha, ho⟩
    exact ⟨a, ⟨b, hb, ha⟩, ho⟩

@[simp]
theorem owes_flatten (ass : List (List α)) : L.list.owes ass.flatten ↔ L.list.list.owes ass := by
  simp only [Likeness.list, List.mem_flatten]
  constructor
  · rintro ⟨a, ⟨as, has, ha⟩, ho⟩
    exact ⟨as, has, a, ha, ho⟩
  · rintro ⟨as, has, a, ha, ho⟩
    exact ⟨a, ⟨as, has, ha⟩, ho⟩

@[simp]
theorem owes_toList (found : Option α) : L.list.owes found.toList ↔ L.option.owes found := by
  simp [Likeness.list, Likeness.option]

@[simp]
theorem owes_pair (a : α) (b : β) : (L.prod M).owes (a, b) ↔ L.owes a ∨ M.owes b := Iff.rfl

@[simp]
theorem owes_inl (a : α) : (L.sum M).owes (.inl a) ↔ L.owes a := Iff.rfl

@[simp]
theorem owes_inr (b : β) : (L.sum M).owes (.inr b) ↔ M.owes b := Iff.rfl

@[simp]
theorem owes_marked (mark : α → Prop) (a : α) : (L.marked mark).owes a ↔ mark a ∨ L.owes a := Iff.rfl

variable {L M}

theorem like_append {as as' bs bs' : List α} (ha : L.list.like as as') (hb : L.list.like bs bs') :
    L.list.like (as ++ bs) (as' ++ bs') := List.rel_append ha hb

theorem like_singleton {a a' : α} (h : L.like a a') : L.list.like [a] [a'] := .cons h .nil

theorem like_concat {as as' : List α} {a a' : α} (has : L.list.like as as') (ha : L.like a a') :
    L.list.like (as ++ [a]) (as' ++ [a']) := like_append has (like_singleton ha)

theorem like_flatten {ass ass' : List (List α)} (h : L.list.list.like ass ass') :
    L.list.like ass.flatten ass'.flatten := by
  induction h with
  | nil => exact .nil
  | cons ha _ ih => exact like_append ha ih

variable {moved : (Nat → Nat) → α → β} {owes : α → Prop}

/-- Lists of the same answers at other places. -/
theorem map_of_like {as as' : List α} (h : (Likeness.moving moved owes : S.Likeness α).list.like as as') :
    as.map (moved S.left) = as'.map (moved S.right) := by
  induction h with
  | nil => rfl
  | cons ha _ ih => rw [List.map_cons, List.map_cons, ih, show moved S.left _ = _ from ha]

theorem like_of_map {as as' : List α} (h : as.map (moved S.left) = as'.map (moved S.right)) :
    (Likeness.moving moved owes : S.Likeness α).list.like as as' := by
  rw [← List.forall₂_eq_eq_eq, List.forall₂_map_left_iff, List.forall₂_map_right_iff] at h
  exact h

/-- What does not depend on places is the same for like lists. -/
theorem same_of_like {γ : Type} {moved : (Nat → Nat) → α → α} {F : List α → γ}
    (hF : ∀ f as, F (as.map (moved f)) = F as) {as as' : List α}
    (h : (Likeness.moving moved owes : S.Likeness α).list.like as as') : F as = F as' := by
  rw [← hF S.left as, ← hF S.right as', map_of_like h]

/-- What is made over with the places is like for like lists. -/
theorem like_apply {moved : (Nat → Nat) → α → α} {F : List α → List α}
    (hF : ∀ f as, F (as.map (moved f)) = (F as).map (moved f)) {as as' : List α}
    (h : (Likeness.moving moved owes : S.Likeness α).list.like as as') :
    (Likeness.moving moved owes : S.Likeness α).list.like (F as) (F as') :=
  like_of_map (by rw [← hF, ← hF, map_of_like h])

theorem option_map_of_like {found found' : Option α}
    (h : (Likeness.moving moved owes : S.Likeness α).option.like found found') :
    found.map (moved S.left) = found'.map (moved S.right) := by
  cases h with
  | some ha => exact congrArg some ha
  | none => rfl

theorem option_like_of_map {found found' : Option α}
    (h : found.map (moved S.left) = found'.map (moved S.right)) :
    (Likeness.moving moved owes : S.Likeness α).option.like found found' := by
  cases found with
  | none => cases found' with
    | none => exact .none
    | some a' => cases h
  | some a => cases found' with
    | none => cases h
    | some a' => exact .some (Option.some.inj h)

end

/-! ### Expressions -/

/-- Trees that are the same at other places. -/
def expr (S : Comparison) : S.Likeness Expr :=
  .moving Expr.moved fun e => S.dropped ≠ .core ∧ e.Uses S.dropped

/-- Forms that are the same at other places. -/
def kind (S : Comparison) : S.Likeness (ExprKind Expr) :=
  .moving (fun f k => k.map (Expr.moved f) f) fun k =>
    S.Drops k.belongsTo ∨ S.expr.list.owes k.children

theorem owes_mk (k : ExprKind Expr) (offset : Nat) (module : ModuleId) :
    S.expr.owes (.mk k offset module) ↔ S.kind.owes k := by
  change S.dropped ≠ .core ∧ (Expr.mk k offset module).Uses S.dropped ↔
    S.Drops k.belongsTo ∨ ∃ c ∈ k.children, S.dropped ≠ .core ∧ c.Uses S.dropped
  rw [Expr.uses_mk, drops_iff]
  simp only [and_or_left, ← exists_and_left, and_left_comm]

theorem like_mk {k k' : ExprKind Expr} {o o' : Nat} (hk : S.kind.like k k') (ho : S.offset.like o o')
    (module : ModuleId) : S.expr.like (.mk k o module) (.mk k' o' module) := by
  change Expr.moved S.left _ = Expr.moved S.right _
  rw [Expr.moved_mk, Expr.moved_mk, show k.map _ _ = _ from hk, show S.left o = _ from ho]

/-- Like trees stand at like places. -/
theorem like_offset {e e' : Expr} (h : S.expr.like e e') : S.offset.like e.offset e'.offset := by
  obtain ⟨k, o, module⟩ := e
  obtain ⟨k', o', module'⟩ := e'
  change Expr.moved S.left _ = Expr.moved S.right _ at h
  rw [Expr.moved_mk, Expr.moved_mk] at h
  injection h

/-- Like trees have like forms. -/
theorem like_kind {e e' : Expr} (h : S.expr.like e e') : S.kind.like e.kind e'.kind := by
  obtain ⟨k, o, module⟩ := e
  obtain ⟨k', o', module'⟩ := e'
  change Expr.moved S.left _ = Expr.moved S.right _ at h
  rw [Expr.moved_mk, Expr.moved_mk] at h
  injection h

theorem owes_kind (k : ExprKind Expr) :
    S.kind.owes k ↔ S.Drops k.belongsTo ∨ S.expr.list.owes k.children := Iff.rfl

/-- Full-text forms do not show more than the expressions inside them: what holds them is shown by
itself. -/
def ftRange (S : Comparison) : S.Likeness (FtRange Expr) :=
  .moving (fun f r => r.map (Expr.moved f)) fun r => S.expr.list.owes r.children

def ftPosFilter (S : Comparison) : S.Likeness (FtPosFilter Expr) :=
  .moving (fun f p => p.map (Expr.moved f)) fun p => S.expr.list.owes p.children

def ftSelection (S : Comparison) : S.Likeness (FtSelection Expr) :=
  .moving (fun f s => s.map (Expr.moved f) f) fun s => S.expr.list.owes s.children

@[simp]
theorem owes_ftRange (r : FtRange Expr) : S.ftRange.owes r ↔ S.expr.list.owes r.children := Iff.rfl

@[simp]
theorem owes_ftPosFilter (p : FtPosFilter Expr) : S.ftPosFilter.owes p ↔ S.expr.list.owes p.children := Iff.rfl

@[simp]
theorem owes_ftSelection (s : FtSelection Expr) : S.ftSelection.owes s ↔ S.expr.list.owes s.children := Iff.rfl

/-- Match options hold constants and no expressions. -/
def levels (S : Comparison) : S.Likeness (FtRange LiteralNode) :=
  .moving (fun f r => r.map (LiteralNode.moved f)) fun _ => False

def thesaurusId (S : Comparison) : S.Likeness FtThesaurusId := .moving FtThesaurusId.moved fun _ => False

def thesaurusOption (S : Comparison) : S.Likeness FtThesaurusOption :=
  .moving FtThesaurusOption.moved fun _ => False

def matchOptions (S : Comparison) : S.Likeness FtMatchOptions :=
  .moving FtMatchOptions.moved fun _ => False

instance : S.levels.Free := ⟨fun _ => id⟩

instance : S.thesaurusId.Free := ⟨fun _ => id⟩

instance : S.thesaurusOption.Free := ⟨fun _ => id⟩

instance : S.matchOptions.Free := ⟨fun _ => id⟩

/-! ### Parts of expressions -/

def valuePart (S : Comparison) : S.Likeness (AttributeValuePart Expr) :=
  .moving (fun f p => p.map (Expr.moved f)) fun p => S.expr.list.owes p.children

def dirAttribute (S : Comparison) : S.Likeness (DirAttribute Expr) :=
  .moving (fun f a => a.map (Expr.moved f) f) fun a => S.expr.list.owes a.children

def dirContent (S : Comparison) : S.Likeness (DirContent Expr) :=
  .moving (fun f d => d.map (Expr.moved f)) fun d => S.expr.list.owes d.children

def computedName (S : Comparison) : S.Likeness (ComputedName Expr) :=
  .moving (fun f n => n.map (Expr.moved f)) fun n => S.expr.list.owes n.children

def forBinding (S : Comparison) : S.Likeness (ForBinding Expr) :=
  .moving (fun f b => b.map (Expr.moved f) f) fun b =>
    (S.Drops .fullText ∧ b.score.isSome) ∨ S.expr.owes b.source

def letBinding (S : Comparison) : S.Likeness (LetBinding Expr) :=
  .moving (fun f b => b.map (Expr.moved f) f) fun b =>
    (S.Drops .fullText ∧ b.score) ∨ S.expr.owes b.value

def windowCondition (S : Comparison) : S.Likeness (WindowCondition Expr) :=
  .moving (fun f w => w.map (Expr.moved f)) fun w => S.expr.owes w.condition

def groupingSpec (S : Comparison) : S.Likeness (GroupingSpec Expr) :=
  .moving (fun f g => g.map (Expr.moved f)) fun g => S.expr.option.owes g.value

def orderSpec (S : Comparison) : S.Likeness (OrderSpec Expr) :=
  .moving (fun f s => s.map (Expr.moved f)) fun s => S.expr.owes s.key

def clause (S : Comparison) : S.Likeness (Clause Expr) :=
  .moving (fun f c => c.map (Expr.moved f) f) fun c =>
    (S.Drops .fullText ∧ c.hasScore) ∨ S.expr.list.owes c.children

def switchCase (S : Comparison) : S.Likeness (SwitchCase Expr) :=
  .moving (fun f b => b.map (Expr.moved f)) fun b => S.expr.list.owes b.children

def typeswitchCase (S : Comparison) : S.Likeness (TypeswitchCase Expr) :=
  .moving (fun f b => b.map (Expr.moved f)) fun b => S.expr.owes b.result

def catchClause (S : Comparison) : S.Likeness (CatchClause Expr) :=
  .moving (fun f k => k.map (Expr.moved f)) fun k => S.expr.owes k.body

def variableBinding (S : Comparison) : S.Likeness (VariableBinding Expr) :=
  .moving (fun f b => b.map (Expr.moved f)) fun b => S.expr.owes b.value

def blockVarDecl (S : Comparison) : S.Likeness (BlockVarDecl Expr) :=
  .moving (fun f d => d.map (Expr.moved f)) fun d => S.expr.option.owes d.value

@[simp]
theorem owes_valuePart (p : AttributeValuePart Expr) : S.valuePart.owes p ↔ S.expr.list.owes p.children := Iff.rfl

@[simp]
theorem owes_dirAttribute (a : DirAttribute Expr) : S.dirAttribute.owes a ↔ S.expr.list.owes a.children := Iff.rfl

@[simp]
theorem owes_dirContent (d : DirContent Expr) : S.dirContent.owes d ↔ S.expr.list.owes d.children := Iff.rfl

@[simp]
theorem owes_computedName (n : ComputedName Expr) : S.computedName.owes n ↔ S.expr.list.owes n.children := Iff.rfl

@[simp]
theorem owes_forBinding (b : ForBinding Expr) : S.forBinding.owes b ↔ (S.Drops .fullText ∧ b.score.isSome) ∨ S.expr.owes b.source := Iff.rfl

@[simp]
theorem owes_letBinding (b : LetBinding Expr) : S.letBinding.owes b ↔ (S.Drops .fullText ∧ b.score) ∨ S.expr.owes b.value := Iff.rfl

@[simp]
theorem owes_windowCondition (w : WindowCondition Expr) : S.windowCondition.owes w ↔ S.expr.owes w.condition := Iff.rfl

@[simp]
theorem owes_groupingSpec (g : GroupingSpec Expr) : S.groupingSpec.owes g ↔ S.expr.option.owes g.value := Iff.rfl

@[simp]
theorem owes_orderSpec (s : OrderSpec Expr) : S.orderSpec.owes s ↔ S.expr.owes s.key := Iff.rfl

theorem owes_clause (c : Clause Expr) : S.clause.owes c ↔ (S.Drops .fullText ∧ c.hasScore) ∨ S.expr.list.owes c.children := Iff.rfl

@[simp]
theorem owes_switchCase (b : SwitchCase Expr) : S.switchCase.owes b ↔ S.expr.list.owes b.children := Iff.rfl

@[simp]
theorem owes_typeswitchCase (b : TypeswitchCase Expr) : S.typeswitchCase.owes b ↔ S.expr.owes b.result := Iff.rfl

@[simp]
theorem owes_catchClause (k : CatchClause Expr) : S.catchClause.owes k ↔ S.expr.owes k.body := Iff.rfl

@[simp]
theorem owes_variableBinding (b : VariableBinding Expr) : S.variableBinding.owes b ↔ S.expr.owes b.value := Iff.rfl

@[simp]
theorem owes_blockVarDecl (d : BlockVarDecl Expr) : S.blockVarDecl.owes d ↔ S.expr.option.owes d.value := Iff.rfl

/-- Parts show what the expressions inside them show. -/
theorem owes_parts {L : S.Likeness α} {inside : α → List Expr}
    (h : ∀ a, S.expr.list.owes (inside a) ↔ L.owes a) (parts : List α) :
    S.expr.list.owes (parts.flatMap inside) ↔ L.list.owes parts := by
  simp only [owes_flatMap, h]
  rfl

@[simp]
theorem owes_attributeParts (parts : List (AttributeValuePart Expr)) :
    S.expr.list.owes (parts.flatMap AttributeValuePart.children) ↔ S.valuePart.list.owes parts :=
  owes_parts (L := S.valuePart) (fun _ => Iff.rfl) parts

@[simp]
theorem owes_attributes (attributes : List (DirAttribute Expr)) :
    S.expr.list.owes (attributes.flatMap DirAttribute.children) ↔ S.dirAttribute.list.owes attributes :=
  owes_parts (L := S.dirAttribute) (fun _ => Iff.rfl) attributes

@[simp]
theorem owes_contents (content : List (DirContent Expr)) :
    S.expr.list.owes (content.flatMap DirContent.children) ↔ S.dirContent.list.owes content :=
  owes_parts (L := S.dirContent) (fun _ => Iff.rfl) content

@[simp]
theorem owes_switchCases (cases : List (SwitchCase Expr)) :
    S.expr.list.owes (cases.flatMap SwitchCase.children) ↔ S.switchCase.list.owes cases :=
  owes_parts (L := S.switchCase) (fun _ => Iff.rfl) cases

@[simp]
theorem owes_typeswitchCases (cases : List (TypeswitchCase Expr)) :
    S.expr.list.owes (cases.flatMap TypeswitchCase.children) ↔ S.typeswitchCase.list.owes cases :=
  owes_parts (fun _ => by simp [TypeswitchCase.children]) cases

@[simp]
theorem owes_catchClauses (catches : List (CatchClause Expr)) :
    S.expr.list.owes (catches.flatMap CatchClause.children) ↔ S.catchClause.list.owes catches :=
  owes_parts (fun _ => by simp [CatchClause.children]) catches

@[simp]
theorem owes_bindings (bindings : List (VariableBinding Expr)) :
    S.expr.list.owes (bindings.flatMap VariableBinding.children) ↔ S.variableBinding.list.owes bindings :=
  owes_parts (fun _ => by simp [VariableBinding.children]) bindings

@[simp]
theorem owes_blockVariables (declarations : List (BlockVarDecl Expr)) :
    S.expr.list.owes (declarations.flatMap BlockVarDecl.children) ↔
      S.blockVarDecl.list.owes declarations :=
  owes_parts (fun _ => by simp [BlockVarDecl.children]) declarations

@[simp]
theorem owes_ranges (ranges : List (FtRange Expr)) :
    S.expr.list.owes (ranges.flatMap FtRange.children) ↔ S.ftRange.list.owes ranges :=
  owes_parts (L := S.ftRange) (fun _ => Iff.rfl) ranges

@[simp]
theorem owes_filters (filters : List (FtPosFilter Expr)) :
    S.expr.list.owes (filters.flatMap FtPosFilter.children) ↔ S.ftPosFilter.list.owes filters :=
  owes_parts (L := S.ftPosFilter) (fun _ => Iff.rfl) filters

@[simp]
theorem owes_selections (selections : List (FtSelection Expr)) :
    S.expr.list.owes (selections.flatMap fun s => s.children) ↔ S.ftSelection.list.owes selections :=
  owes_parts (L := S.ftSelection) (fun _ => Iff.rfl) selections

/-! ### Nodes -/

theorem agree_node {t : Stage} {shown : Prop} {k k' : ExprKind Expr} {o o' : Nat}
    (hk : S.kind.like k k') (ho : S.offset.like o o') (hs : S.kind.owes k ↔ shown) :
    S.Agree shown (S.Near t) (Parser.node k o) (Parser.node k' o') S.expr fun _ => S.Near t := by
  have hmodule (s s' : ParserState) (h : S.Near t s s') : s.module = s'.module := h.module.symm
  have hpure (module module' : ModuleId) (hm : (Likeness.plain : S.Likeness _).like module module') :
      S.Agree shown (S.Near t) (pure (Expr.mk k o module)) (pure (Expr.mk k' o' module')) S.expr
        fun _ => S.Near t :=
    .pure (hm ▸ like_mk hk ho module) ((owes_mk k o module).trans hs) fun _ _ h => h
  exact Agree.look hmodule hpure

theorem agree_form {σ : Type} [Parsing σ] {P : σ → σ → Prop} {shown : Prop} {k k' : ExprKind Expr}
    (hk : S.kind.like k k') (hs : S.kind.owes k ↔ shown) :
    S.Agree shown P (pure k) (pure k') S.kind fun _ => P := .give hk hs

theorem agree_someForm {σ : Type} [Parsing σ] {P : σ → σ → Prop} {shown : Prop}
    {k k' : ExprKind Expr} (hk : S.kind.like k k') (hs : S.kind.owes k ↔ shown) :
    S.Agree shown P (pure (some k)) (pure (some k')) S.kind.option fun _ => P :=
  .give (.some hk) ((owes_some _ k).trans hs)

end XQuerySyntax.Comparison
