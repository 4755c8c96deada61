import XQuerySyntax.Proofs.RoundTrip.Operand

/-! From the layer of an expression to the places that it can stand in. An expression that is read at
its own layer is read in every place, in parentheses where the place asks for a tighter layer. -/

namespace XQuerySyntax

open XQuerySyntax.Parser Grammar Glimpse

/-- The tokens are read at a layer as what the predicate says, wherever so many single expressions
may still be opened and something looser comes behind. -/
def ReadsAs (tokens : List Token) (opens : Nat) (P : StaticContext → ModuleId → Expr → Prop)
    (place : Layer) : Prop :=
  ∀ (n : Nat) (f : Frame) (saved : List LexicalState) (text rest : List Char) (bound : Nat),
    opens ≤ n → f.depth + opens ≤ f.maxDepth → text.length ≤ f.size → Written tokens text rest →
      Behind bound rest → place.rank < bound →
        Reads f (.before saved text) (place.parser n) (P f.context f.module) (.behind saved rest)

/-- The tokens begin as an expression in the place does. -/
def BeginsAs (tokens : List Token) (place : Layer) : Prop :=
  ∀ (text rest : List Char) (bound : Nat), Written tokens text rest → Behind bound rest →
    Begins place.views text

variable {tokens : List Token} {opens : Nat} {P : StaticContext → ModuleId → Expr → Prop}
  {layer place : Layer} {text rest : List Char}

/-! ### What is declined -/

theorem Layer.views_settled (place : Layer) : place.views.all isSettled := by
  have hsubset : place.views ⊆ Layer.sequence.views :=
    Layer.views_subset place.rank_le_sequence
  exact List.all_eq_true.2 fun v hv => List.all_eq_true.1 itemViews_settled v (hsubset hv)

theorem Begins.of_rules {views : List (List Glimpse)} {rules : List Rule} (h : Begins views text)
    (hsettled : views.all isSettled)
    (hrules : rules.all fun r => views.all (Scan.declines .expression r)) :
    ∀ r ∈ rules, Declines .expression text r :=
  fun r hr => h.declines hsettled (List.all_eq_true.1 hrules r hr)

theorem Begins.keywords (h : Begins Layer.or.views text) :
    ∀ r ∈ keywordRules, Declines .expression text r :=
  h.of_rules (Layer.views_settled .or) keywordRules_decline

theorem Begins.values (h : Begins Layer.primary.views text) :
    ∀ r ∈ signRules ++ valueRules, Declines .expression text r :=
  h.of_rules (Layer.views_settled .primary) valueRules_decline

theorem Begins.closers (h : Begins Layer.sequence.views text) :
    ∀ r ∈ [Terminal.rparen, Terminal.argumentPlaceholder], Declines .expression text r :=
  h.of_rules (Layer.views_settled .sequence) closers_decline

/-! ### Looser places -/

theorem ReadsAs.looser (h : ReadsAs tokens opens P layer) (hbegins : BeginsAs tokens layer)
    (hlayer : layer.rank ≤ place.rank) (hplace : place.rank ≤ Layer.or.rank) :
    ReadsAs tokens opens P place := by
  intro n f saved text rest bound hopens hdepth hsize htext hrest hbound
  have hread := h n f saved text rest bound hopens hdepth hsize htext hrest
    (Nat.lt_of_le_of_lt hlayer hbound)
  refine Layer.reads_looser hrest hbound hlayer hplace ?_ hread
  rintro rfl r hr
  exact (hbegins text rest bound htext hrest).values r (List.mem_append_left _ hr)

/-- As a single expression one more is open. -/
theorem ReadsAs.single (h : ReadsAs tokens opens P .or) (hbegins : BeginsAs tokens .or) :
    ReadsAs tokens (opens + 1) P .single := by
  intro n f saved text rest bound hopens hdepth hsize htext hrest hbound
  obtain ⟨n, rfl⟩ := Nat.exists_eq_add_of_le hopens
  have hlimit : f.depth < f.maxDepth := by omega
  have hn : opens + 1 + n = (opens + n) + 1 := by omega
  have hkeywords := (hbegins text rest bound htext hrest).keywords
  have hread := h (opens + n) { f with depth := f.depth + 1 } saved text rest bound (by omega)
    (by change f.depth + 1 + opens ≤ f.maxDepth; omega) hsize htext hrest
    (Nat.lt_trans (by decide) hbound)
  rw [hn]
  exact reads_nested hlimit (reads_singleOf hkeywords hread)

theorem ReadsAs.sequence (h : ReadsAs tokens opens P .single) : ReadsAs tokens opens P .sequence := by
  intro n f saved text rest bound hopens hdepth hsize htext hrest hbound
  have hread := h n f saved text rest bound hopens hdepth hsize htext hrest
    (Nat.lt_trans (by decide) hbound)
  exact reads_expr hread (hrest.declines hbound Terminal.comma List.mem_cons_self)

/-! ### Parentheses -/

theorem beginsAs_paren (hne : tokens ≠ []) (place : Layer) :
    BeginsAs (.opening :: tokens) place := by
  intro text rest bound h hrest
  have hprimary : Layer.primary.views ⊆ place.views := Layer.views_subset (Nat.zero_le _)
  exact (h.begins_paren hne hrest.ends).weaken (List.Subset.trans parenView_subset hprimary)

/-- An expression in parentheses is a primary expression. -/
theorem ReadsAs.parenthesized (h : ReadsAs tokens opens P .sequence)
    (hbegins : BeginsAs tokens .sequence) (hne : tokens ≠ [])
    (hP : ∀ context module e, P context module e →
      ∀ axis test predicates, e.kind ≠ .step axis test predicates) :
    ReadsAs (.opening :: (tokens ++ [.closing])) opens P .primary := by
  intro n f saved text rest bound hopens hdepth hsize htext hrest hbound
  obtain ⟨token, tokens', rfl⟩ := List.exists_cons_of_ne_nil hne
  have hends : endsToken rest := hrest.ends
  have hparen : Begins [parenView] text := htext.begins_paren (List.cons_ne_nil _ _) hends
  have hvalues := (beginsAs_paren (List.cons_ne_nil _ _) .primary text rest bound htext hrest).values
  have hliteral := hparen.of_rules rfl parenRules_decline
  obtain ⟨inside, hinside, hlength, hopen⟩ :=
    htext.takes .expression Terminal.lparen rfl (by rfl) hends
  obtain ⟨close, hcontent, hclosing⟩ :
      ∃ mid, Spread (token :: tokens') inside mid ∧ Spread [.closing] mid rest := hinside.append
  have hclose : Behind (Layer.sequence.rank + 1) close :=
    hclosing.behind (by simp [Token.following]) hends (.inr (by simp [Token.spellings]))
  have hread := h n f saved inside close _ hopens hdepth (Nat.le_trans (Nat.le_of_lt hlength) hsize)
    (hcontent.written hne) hclose (Nat.lt_succ_self _)
  have hclosers := (hbegins inside close _ (hcontent.written hne) hclose).closers
  obtain ⟨text', hnil, -, htake⟩ :=
    (hclosing.written (by simp)).takes .operator Terminal.rparen rfl (by rfl) hends
  cases hnil
  apply reads_valueExpr_primary (fun r hr => hvalues r (List.mem_append_right _ hr))
  · apply reads_primary_paren (hliteral Terminal.numericLiteral (by simp))
      (hliteral Terminal.stringLiteral (by simp)) (hliteral Terminal.variableReference (by simp)) hopen
    exact reads_parenthesized (hclosers Terminal.rparen (by simp)) hread htake
  · exact hP _ _
  · exact hrest.declines hbound

/-! ### Every place -/

namespace OperatorTree

variable {t : OperatorTree}

theorem tokensAt_of_le (h : t.layer.rank ≤ place.rank) : t.tokensAt place = t.tokens :=
  if_pos h

theorem tokensAt_of_lt (h : place.rank < t.layer.rank) :
    t.tokensAt place = .opening :: (t.tokens ++ [Token.closing]) :=
  if_neg (Nat.not_le.2 h)

theorem openAt_of_le (hplace : place.rank ≤ Layer.or.rank) (h : t.layer.rank ≤ place.rank) :
    t.openAt place = t.inner := by
  have hsingle : place ≠ .single := by
    rintro rfl
    exact absurd hplace (by decide)
  have hsequence : place ≠ .sequence := by
    rintro rfl
    exact absurd hplace (by decide)
  unfold openAt openInPlace
  rw [if_neg hsingle, if_pos ⟨hsequence, h⟩]

theorem openAt_of_lt (hplace : place.rank ≤ Layer.or.rank) (h : place.rank < t.layer.rank) :
    t.openAt place = t.openAt .sequence := by
  have hsingle : place ≠ .single := by
    rintro rfl
    exact absurd hplace (by decide)
  have hle : ¬(place ≠ .sequence ∧ t.layer.rank ≤ place.rank) := fun hle => Nat.not_le.2 h hle.2
  unfold openAt openInPlace
  rw [if_neg hsingle, if_neg hle]
  rfl

theorem openAt_sequence (h : t.layer ≠ .sequence) : t.openAt .sequence = t.inner + 1 :=
  if_neg h

theorem rank_le_or (h₁ : layer ≠ .single) (h₂ : layer ≠ .sequence) :
    layer.rank ≤ Layer.or.rank := by
  cases layer <;> first
    | decide
    | exact absurd rfl h₁
    | exact absurd rfl h₂

/-- No operator expression is a step, since a step alone is a path. -/
theorem not_step (t : OperatorTree) {c : StaticContext} {m : ModuleId} {e : Expr}
    (h : t.Denotes c m e) (axis : Axis) (test : NodeTest) (predicates : List Expr) :
    e.kind ≠ .step axis test predicates := by
  intro hkind
  cases t with
  | varRef | integer | string | empty =>
    obtain ⟨offset, rfl⟩ := h
    cases hkind
  | step n =>
    obtain ⟨offset, offset', rfl⟩ := h
    cases hkind
  | unary =>
    obtain ⟨offset, operand, rfl, -⟩ := h
    cases hkind
  | binary | range =>
    obtain ⟨offset, left, right, rfl, -⟩ := h
    cases hkind
  | conditional | sequence =>
    obtain ⟨offset, first, second, third, rfl, -⟩ := h
    cases hkind
  | call =>
    obtain ⟨offset, args, rfl, -⟩ := h
    cases hkind

theorem beginsAs (t : OperatorTree) (place : Layer) : BeginsAs (t.tokensAt place) place :=
  fun _ _ _ h hrest => t.begins h hrest

/-- An expression that is read at its own layer is read in every place. -/
theorem readsAs_of_layer
    (h : ReadsAs t.tokens (t.openAt t.layer) (fun c m => Denotes c m t) t.layer) (place : Layer) :
    ReadsAs (t.tokensAt place) (t.openAt place) (fun c m => Denotes c m t) place := by
  have hbegins {place : Layer} (hle : t.layer.rank ≤ place.rank) : BeginsAs t.tokens place := by
    rw [← tokensAt_of_le hle]
    exact t.beginsAs place
  have hoperator (hlayer : t.layer.rank ≤ Layer.or.rank) {place : Layer}
      (hle : t.layer.rank ≤ place.rank) (hplace : place.rank ≤ Layer.or.rank) :
      ReadsAs t.tokens t.inner (fun c m => Denotes c m t) place := by
    rw [openAt_of_le hlayer (Nat.le_refl _)] at h
    exact h.looser (hbegins (Nat.le_refl _)) hle hplace
  have hsingle (hlayer : t.layer ≠ .sequence) :
      ReadsAs t.tokens (t.inner + 1) (fun c m => Denotes c m t) .single := by
    by_cases hown : t.layer = .single
    · rw [hown] at h
      exact h
    · have hor := rank_le_or hown hlayer
      exact (hoperator hor hor (Nat.le_refl _)).single (hbegins hor)
  have hsequence : ReadsAs t.tokens (t.openAt .sequence) (fun c m => Denotes c m t) .sequence := by
    by_cases hown : t.layer = .sequence
    · rw [hown] at h
      exact h
    · rw [openAt_sequence hown]
      exact (hsingle hown).sequence
  have hparen {place : Layer} (hplace : place.rank ≤ Layer.or.rank) :
      ReadsAs (.opening :: (t.tokens ++ [.closing])) (t.openAt .sequence)
        (fun c m => Denotes c m t) place := by
    have hprimary := hsequence.parenthesized (hbegins t.layer.rank_le_sequence) t.tokens_ne_nil
      fun _ _ _ he => t.not_step he
    exact hprimary.looser (beginsAs_paren (by simp) .primary) (Nat.zero_le _) hplace
  by_cases hle : t.layer.rank ≤ place.rank
  · rw [tokensAt_of_le hle]
    by_cases hs : place = .sequence
    · rw [hs]
      exact hsequence
    by_cases hs' : place = .single
    · rw [hs'] at hle ⊢
      refine hsingle ?_
      intro hown
      rw [hown] at hle
      exact absurd hle (by decide)
    · have hplace := rank_le_or hs' hs
      rw [openAt_of_le hplace hle]
      exact hoperator (Nat.le_trans hle hplace) hle hplace
  · have hlt : place.rank < t.layer.rank := Nat.not_le.1 hle
    rw [tokensAt_of_lt hlt]
    by_cases hs : place = .single
    · have hown : t.layer = .sequence := by
        rw [hs] at hlt
        exact Layer.rank_inj (Nat.le_antisymm t.layer.rank_le_sequence hlt)
      have hopen : t.openAt .sequence = t.inner := if_pos hown
      have hor := hparen (Nat.le_refl _)
      rw [hopen] at hor
      rw [hs]
      exact hor.single (beginsAs_paren (by simp) .or)
    · have hs' : place ≠ .sequence := by
        rintro rfl
        exact absurd hlt (Nat.not_lt.2 t.layer.rank_le_sequence)
      have hplace := rank_le_or hs hs'
      rw [openAt_of_lt hplace hlt]
      exact hparen hplace

end OperatorTree

end XQuerySyntax
