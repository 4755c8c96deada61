import XQuerySyntax.Proofs.RoundTrip.Lookahead

/-! What operands begin with. Most rules that are tried in front of an operand begin with a word that
may as well be a name; none of them goes on as a text can that follows a name. -/

namespace XQuerySyntax

open Glimpse

/-! ### The rules that are tried in front -/

namespace Grammar

open Terminal

/-- The rules by which a query of clauses begins. -/
def flworRules : List Rule := [forTumbling, forSliding, forClause, letScore, letClause]

/-- The rules by which an updating expression begins. -/
def updateRules : List Rule :=
  [insertNode, insertNodes, deleteNode, deleteNodes, replaceValue, replaceNode, renameNode,
    copyClause]

/-- The rules by which a statement begins. -/
def statementRules : List Rule :=
  [blockOpen, whileLoop, exitReturning, exitWith, breakLoop, continueLoop, setVariable, assignment]

/-- The rules by which a single expression begins that has a keyword in front. -/
def keywordRules : List Rule :=
  flworRules ++ [someQuantifier, everyQuantifier, switch, typeswitch, ifCondition, tryBody] ++
    updateRules ++ statementRules

/-- The rules of signs. -/
def signRules : List Rule := [unaryMinus, unaryPlus]

/-- The rules by which a value begins that is no path, or a path that begins at the root. -/
def valueRules : List Rule :=
  [validateType, validateMode, validate, pragmaOpen, rootDescendants, rootSlash]

/-- The rules by which a constructor begins. -/
def constructorRules : List Rule :=
  [elementOpen, commentOpen, piOpen, computedDocument, computedElementNamed, computedElement,
    computedAttributeNamed, computedAttribute, computedText, computedComment, computedPiNamed,
    computedPi, computedNamespaceNamed, computedNamespace]

/-- The rules of primary expressions up to parentheses. -/
def literalRules : List Rule := [numericLiteral, stringLiteral, variableReference, lparen]

/-- The rules of primary expressions between parentheses and named functions. -/
def frontRules : List Rule :=
  [parentStep, contextItem] ++ constructorRules ++
    [orderedBlock, unorderedBlock, annotationName, Terminal.inlineFunction]

/-- The rules of primary expressions between parentheses and calls. -/
def primaryRules : List Rule :=
  [parentStep, contextItem] ++ constructorRules ++
    [orderedBlock, unorderedBlock, annotationName, Terminal.inlineFunction,
      Terminal.namedFunctionRef]

/-- The rules of kind tests. -/
def kindRules : List Rule :=
  [kindDocument, kindElement, kindAttribute, kindSchemaElement, kindSchemaAttribute, kindPi,
    kindComment, kindText, kindNamespaceNode, kindNode]

/-- The rules from calls up to steps of plain names. -/
def stepRules : List Rule :=
  [functionCall, axis, abbrevAttribute, parentStep] ++ kindRules ++ [wildcardPrefix, wildcardLocal, wildcard]

end Grammar

/-! ### What an operand begins with -/

/-- A simple name and what may follow it. -/
def nameViews : List (List Glimpse) := followingViews.map fun p => .name :: p.2

/-- A variable and what may follow it. -/
def variableViews : List (List Glimpse) :=
  (nameViews.map fun view => .char '$' :: view) ++ nameViews.map fun view => .char '$' :: .gap :: view

/-- A string between quotes of either kind. -/
def stringViews : List (List Glimpse) := [[.char '"'], [.char '\'']]

/-- A call of a local function. -/
def callView : List Glimpse := [.word "local".toList, .char ':', .name, .gap, .char '(']

/-- A parenthesis. -/
def parenView : List Glimpse := [.char '(', .gap]

/-- What a primary expression begins with. -/
def primaryViews : List (List Glimpse) :=
  nameViews ++ variableViews ++ stringViews ++ [[.digit], callView, parenView]

/-- What an operand begins with. -/
def operandViews : List (List Glimpse) := primaryViews ++ [[.char '+'], [.char '-']]

/-- The beginning of a conditional. -/
def conditionalView : List Glimpse := [.word "if".toList, .gap, .char '(']

/-- What a single expression begins with. -/
def itemViews : List (List Glimpse) := operandViews ++ [conditionalView]

/-- What an expression in a place begins with. -/
def Layer.views (place : Layer) : List (List Glimpse) :=
  if place = .primary then primaryViews
  else if place.rank ≤ Layer.or.rank then operandViews else itemViews

theorem Layer.views_subset {layer place : Layer} (h : layer.rank ≤ place.rank) :
    layer.views ⊆ place.views := by
  have hprimary : primaryViews ⊆ operandViews := List.subset_append_left _ _
  have hoperand : operandViews ⊆ itemViews := List.subset_append_left _ _
  unfold views
  split
  · split
    · exact List.Subset.refl _
    · split
      · exact hprimary
      · exact List.Subset.trans hprimary hoperand
  · rename_i hlayer
    have hplace : place ≠ primary := by
      rintro rfl
      cases layer <;> first
        | exact hlayer rfl
        | exact absurd h (by decide)
    rw [if_neg hplace]
    split
    · split
      · exact List.Subset.refl _
      · exact hoperand
    · rename_i hrank
      rw [if_neg fun hle => hrank (Nat.le_trans h hle)]
      exact List.Subset.refl _

theorem itemViews_settled : itemViews.all isSettled := by rfl

/-- The text begins in one of these ways, behind any space. -/
def Begins (views : List (List Glimpse)) (text : List Char) : Prop :=
  ∃ space body view, text = space ++ body ∧ Trivia space ∧ view ∈ views ∧ Shows true view body

variable {views views' : List (List Glimpse)} {text rest : List Char} {r : Rule}

theorem Begins.weaken (h : Begins views text) (hsub : views ⊆ views') : Begins views' text := by
  obtain ⟨space, body, view, htext, hspace, hview, hs⟩ := h
  exact ⟨space, body, view, htext, hspace, hsub hview, hs⟩

theorem skip?_of_isSettled {view : List Glimpse} (h : isSettled view) : skip? view = some view := by
  rw [skip?, if_pos h]
  rintro _ rfl
  cases h

/-- What is declined where the views begin is declined in front of the space there, too. -/
theorem Begins.declines_in {state : LexicalState} (hblanks : state.skipsBlanks)
    (hcomments : state.skipsComments) (h : Begins views text) (hsettled : views.all isSettled)
    (hr : views.all (Scan.declines state r)) : Parser.Declines state text r := by
  obtain ⟨space, body, view, rfl, hspace, hview, hs⟩ := h
  have hset : isSettled view := List.all_eq_true.1 hsettled view hview
  have hdecline : Scan.declines state r view := List.all_eq_true.1 hr view hview
  by_cases hne : space = []
  · subst hne
    exact declines_of_view hdecline (by rw [hcomments]; exact hs)
  · have hgap : Scan.declines state r (.gap :: view) := by
      rw [Scan.declines, if_pos hblanks, refuses, skip?_of_isSettled hset] at hdecline
      rw [Scan.declines, if_pos hblanks, refuses]
      exact hdecline
    refine declines_of_view hgap ?_
    rw [hcomments]
    exact ⟨body, hspace.startsTrivia hne body, scanTrivia_append hspace (hs.settled hset), hs⟩

theorem Begins.declines (h : Begins views text) (hsettled : views.all isSettled)
    (hr : views.all (Scan.declines .expression r)) : Parser.Declines .expression text r :=
  h.declines_in rfl rfl hsettled hr

/-! ### The rules that are declined -/

open Grammar Terminal

/-- No expression begins with a closing parenthesis or with the mark of an argument left open. -/
theorem closers_decline :
    [rparen, argumentPlaceholder].all fun r => itemViews.all (Scan.declines .expression r) := by
  rw [Scan.declines_eq]
  rfl

/-- No operand is taken for an expression that begins with a keyword, whatever names it has. -/
theorem keywordRules_decline :
    keywordRules.all fun r => operandViews.all (Scan.declines .expression r) := by
  rw [Scan.declines_eq]
  decide +kernel

theorem valueRules_decline :
    (signRules ++ valueRules).all fun r => primaryViews.all (Scan.declines .expression r) := by
  rw [Scan.declines_eq]
  rfl

/-- Primary expressions are told apart by their first characters, and calls by their qualifier. -/
theorem stringRules_decline :
    [numericLiteral].all fun r => stringViews.all (Scan.declines .expression r) := by
  rw [Scan.declines_eq]
  rfl

theorem variableRules_decline :
    [numericLiteral, stringLiteral].all fun r =>
      variableViews.all (Scan.declines .expression r) := by
  rw [Scan.declines_eq]
  rfl

theorem parenRules_decline :
    [numericLiteral, stringLiteral, variableReference].all fun r =>
      [parenView].all (Scan.declines .expression r) := by
  rw [Scan.declines_eq]
  rfl

theorem callRules_decline :
    (literalRules ++ primaryRules).all fun r => [callView].all (Scan.declines .expression r) := by
  rw [Scan.declines_eq]
  rfl

/-- No conditional is taken for another expression that begins with a keyword. -/
theorem conditionalRules_decline :
    (flworRules ++ [someQuantifier, everyQuantifier, switch, typeswitch]).all fun r =>
      [conditionalView].all (Scan.declines .expression r) := by
  rw [Scan.declines_eq]
  rfl

/-- No step of a plain name is taken for anything else. -/
theorem stepRules_decline :
    (literalRules ++ primaryRules ++ stepRules).all fun r =>
      nameViews.all (Scan.declines .expression r) := by
  rw [Scan.declines_eq]
  decide +kernel

/-! ### Printed expressions -/

variable {tokens : List Token} {space chars : List Char}

theorem nameViews_subset : nameViews ⊆ primaryViews :=
  fun _ h => List.mem_append_left _ (List.mem_append_left _ (List.mem_append_left _ h))

theorem variableViews_subset : variableViews ⊆ primaryViews :=
  fun _ h => List.mem_append_left _ (List.mem_append_left _ (List.mem_append_right _ h))

theorem stringViews_subset : stringViews ⊆ primaryViews :=
  fun _ h => List.mem_append_left _ (List.mem_append_right _ h)

theorem shows_opening (h : Spread tokens text rest) (hne : tokens ≠ []) (hrest : endsToken rest) :
    Shows true parenView ("(".toList ++ text) := by
  obtain ⟨token, tokens, rfl⟩ := List.exists_cons_of_ne_nil hne
  obtain ⟨text', hstarts, hscan, -⟩ := h.shows_gap hrest
  exact ⟨text, rfl, text', hstarts, hscan, trivial⟩

theorem Spread.shows_paren (h : Spread (.opening :: tokens) text rest) (hrest : endsToken rest) :
    Shows true [.gap, .char '('] text := by
  cases h with
  | @cons _ _ space chars mid _ hspace hne hchars htext =>
    have hset := (hchars.settled (htext.ends hrest)).1
    obtain ⟨spelling, hmem, rfl⟩ := hchars
    obtain rfl := List.mem_singleton.1 hmem
    exact ⟨_, hspace.startsTrivia hne _, scanTrivia_append hspace hset, mid, rfl, trivial⟩

theorem callView_subset : [callView] ⊆ primaryViews := by
  intro view hview
  obtain rfl := List.mem_singleton.1 hview
  exact List.mem_append_right _ (by simp)

theorem parenView_subset : [parenView] ⊆ primaryViews := by
  intro view hview
  obtain rfl := List.mem_singleton.1 hview
  exact List.mem_append_right _ (by simp)

theorem conditionalView_subset : [conditionalView] ⊆ Layer.single.views :=
  List.subset_append_right operandViews _

theorem shows_name {bound : Nat} (n : SimpleName) (hrest : Behind bound rest) :
    ∃ view ∈ nameViews, Shows true view (n.chars ++ rest) := by
  obtain ⟨view, hmem, hs⟩ := hrest
  refine ⟨.name :: view, List.mem_map_of_mem hmem, ?_⟩
  exact ⟨n.chars, rest, rfl, n.isName, (Behind.ends ⟨view, hmem, hs⟩).endsName, hs⟩

theorem shows_variable {bound : Nat} (n : SimpleName) (hspace : Trivia space)
    (hrest : Behind bound rest) :
    ∃ view ∈ variableViews, Shows true view ('$' :: (space ++ n.chars) ++ rest) := by
  obtain ⟨view, hview, hs⟩ := shows_name n hrest
  have htext : '$' :: (space ++ n.chars) ++ rest = '$' :: (space ++ (n.chars ++ rest)) := by
    rw [List.cons_append, List.append_assoc]
  rw [htext]
  by_cases hne : space = []
  · subst hne
    exact ⟨.char '$' :: view, List.mem_append_left _ (List.mem_map_of_mem hview), _, rfl, hs⟩
  · have hset : startsTrivia true (n.chars ++ rest) = false := n.settled hrest.ends
    refine ⟨.char '$' :: .gap :: view, List.mem_append_right _ (List.mem_map_of_mem hview), _, rfl, ?_⟩
    exact ⟨_, hspace.startsTrivia hne _, scanTrivia_append hspace hset, hs⟩

theorem shows_call (n : SimpleName) (h : Spread (.opening :: tokens) text rest)
    (hrest : endsToken rest) : Shows true callView ("local:".toList ++ n.chars ++ text) := by
  have hends : endsToken text := h.ends hrest
  have hcolon : endsName (':' :: (n.chars ++ text)) := by
    rintro _ ⟨⟩
    decide
  refine ⟨':' :: (n.chars ++ text), by simp, by decide, hcolon, _, rfl, ?_⟩
  exact ⟨n.chars, text, rfl, n.isName, hends.endsName, h.shows_paren hrest⟩

theorem shows_conditional (h : Spread (.opening :: tokens) text rest) (hrest : endsToken rest) :
    Shows true conditionalView ("if".toList ++ text) :=
  ⟨text, rfl, by decide, (h.ends hrest).endsName, h.shows_paren hrest⟩

theorem begins_token {view : List Glimpse} (hspace : Trivia space) (hview : view ∈ views)
    (hs : Shows true view (chars ++ text)) : Begins views (space ++ (chars ++ text)) :=
  ⟨space, chars ++ text, view, rfl, hspace, hview, hs⟩

theorem Written.begins_paren (h : Written (.opening :: tokens) text rest) (hne : tokens ≠ [])
    (hrest : endsToken rest) : Begins [parenView] text := by
  obtain ⟨space, chars, mid, rfl, hspace, ⟨spelling, hmem, rfl⟩, hmid⟩ := h
  obtain rfl := List.mem_singleton.1 hmem
  exact begins_token hspace List.mem_cons_self (shows_opening hmid hne hrest)

theorem Written.begins_conditional (h : Written (.ifWord :: .opening :: tokens) text rest)
    (hrest : endsToken rest) : Begins [conditionalView] text := by
  obtain ⟨space, chars, mid, rfl, hspace, ⟨spelling, hmem, rfl⟩, hmid⟩ := h
  obtain rfl := List.mem_singleton.1 hmem
  exact begins_token hspace List.mem_cons_self (shows_conditional hmid hrest)

theorem Written.begins_call {n : SimpleName} (h : Written (.localName n :: .opening :: tokens) text rest)
    (hrest : endsToken rest) : Begins [callView] text := by
  obtain ⟨space, chars, mid, rfl, hspace, rfl, hmid⟩ := h
  exact begins_token hspace List.mem_cons_self (shows_call n hmid hrest)

theorem Written.begins_string {value : String} (h : Written (.string value :: tokens) text rest) :
    Begins stringViews text := by
  obtain ⟨space, chars, mid, rfl, hspace, ⟨quote, body, hquote, -, rfl⟩, hmid⟩ := h
  have hview : [.char quote] ∈ stringViews := by
    rcases hquote with rfl | rfl
    · exact List.mem_cons_self
    · exact List.mem_cons_of_mem _ List.mem_cons_self
  exact begins_token hspace hview ⟨body ++ [quote] ++ mid, rfl, trivial⟩

theorem Written.begins_variable {n : SimpleName} {bound : Nat} (h : Written [.varRef n] text rest)
    (hrest : Behind bound rest) : Begins variableViews text := by
  obtain ⟨space, chars, mid, rfl, hspace, ⟨inside, hinside, rfl⟩, hmid⟩ := h
  cases hmid
  obtain ⟨view, hview, hs⟩ := shows_variable n hinside hrest
  exact begins_token hspace hview hs

theorem Written.begins_name {n : SimpleName} {bound : Nat} (h : Written [.name n] text rest)
    (hrest : Behind bound rest) : Begins nameViews text := by
  obtain ⟨space, chars, mid, rfl, hspace, rfl, hmid⟩ := h
  cases hmid
  obtain ⟨view, hview, hs⟩ := shows_name n hrest
  exact begins_token hspace hview hs

namespace OperatorTree

theorem tokens_ne_nil (t : OperatorTree) : t.tokens ≠ [] := by
  match t with
  | call _ [] | call _ (_ :: _) => exact List.cons_ne_nil _ _
  | binary .. | range .. | sequence .. => simp [tokens]
  | varRef _ | integer .. | string _ | step _ | unary .. | conditional .. | empty =>
    exact List.cons_ne_nil _ _

theorem tokensAt_ne_nil (place : Layer) (t : OperatorTree) : t.tokensAt place ≠ [] := by
  unfold tokensAt inPlace
  split
  · exact t.tokens_ne_nil
  · exact List.cons_ne_nil _ _

/-- An expression begins with what may begin an expression in its place. -/
theorem begins (t : OperatorTree) {place : Layer} {bound : Nat} {text rest : List Char}
    (h : Written (t.tokensAt place) text rest) (hrest : Behind bound rest) :
    Begins place.views text := by
  have hprimary : Layer.primary.views ⊆ place.views := Layer.views_subset (Nat.zero_le _)
  have hends : endsToken rest := hrest.ends
  unfold tokensAt inPlace at h
  split at h
  · rename_i hrank
    match t with
    | varRef n =>
      exact (Written.begins_variable h hrest).weaken (List.Subset.trans variableViews_subset hprimary)
    | integer value hvalue =>
      obtain ⟨space, chars, mid, rfl, hspace, ⟨hne, hdigits, -⟩, hmid⟩ := h
      obtain ⟨c, chars, rfl⟩ := List.exists_cons_of_ne_nil hne
      have hview : [.digit] ∈ primaryViews := List.mem_append_right _ List.mem_cons_self
      exact begins_token hspace (hprimary hview)
        ⟨c, chars ++ mid, rfl, hdigits c List.mem_cons_self, trivial⟩
    | string value =>
      exact (Written.begins_string h).weaken (List.Subset.trans stringViews_subset hprimary)
    | step n =>
      exact (Written.begins_name h hrest).weaken (List.Subset.trans nameViews_subset hprimary)
    | binary op l r =>
      obtain ⟨mid, hl, hop⟩ := h.append (l.tokensAt_ne_nil _)
      have hmid := hop.behind (Token.operator_mem_following op) hends (.inl (r.tokensAt_ne_nil _))
      have hlayer : op.layer.left.rank ≤ place.rank := Nat.le_trans op.layer.left_rank_le hrank
      exact (begins l hl hmid).weaken (Layer.views_subset hlayer)
    | range l r =>
      obtain ⟨mid, hl, hto⟩ := h.append (l.tokensAt_ne_nil _)
      have hmid := hto.behind (by simp [Token.following]) hends (.inl (r.tokensAt_ne_nil _))
      have htighter : Layer.additive.rank ≤ Layer.range.rank := by decide
      have hlayer : Layer.additive.rank ≤ place.rank := Nat.le_trans htighter hrank
      exact (begins l hl hmid).weaken (Layer.views_subset hlayer)
    | unary op s =>
      obtain ⟨space, chars, mid, rfl, hspace, ⟨spelling, hmem, rfl⟩, hmid⟩ := h
      have hsign : ∃ c, spelling.toList = [c] ∧ [.char c] ∈ operandViews := by
        cases op with
        | plus =>
          obtain rfl := List.mem_singleton.1 hmem
          exact ⟨'+', rfl, List.mem_append_right _ (by simp)⟩
        | minus =>
          obtain rfl := List.mem_singleton.1 hmem
          exact ⟨'-', rfl, List.mem_append_right _ (by simp)⟩
      obtain ⟨c, hc, hview⟩ := hsign
      have hoperand : Layer.unary.views ⊆ place.views := Layer.views_subset hrank
      exact begins_token hspace (hoperand hview) ⟨mid, by rw [hc]; rfl, trivial⟩
    | conditional c y n =>
      have hitem : [conditionalView] ⊆ place.views :=
        List.Subset.trans conditionalView_subset (Layer.views_subset hrank)
      exact (Written.begins_conditional h hends).weaken hitem
    | call n [] | call n (_ :: _) =>
      exact (Written.begins_call h hends).weaken (List.Subset.trans callView_subset hprimary)
    | empty =>
      exact (Written.begins_paren h (List.cons_ne_nil _ _) hends).weaken
        (List.Subset.trans parenView_subset hprimary)
    | sequence t₁ t₂ ts =>
      obtain ⟨mid, h₁, hcomma⟩ := h.append (t₁.tokensAt_ne_nil _)
      have hmid := hcomma.behind (by simp [Token.following]) hends (.inr (by simp [Token.spellings]))
      have htighter : Layer.single.rank ≤ Layer.sequence.rank := by decide
      have hlayer : Layer.single.rank ≤ place.rank := Nat.le_trans htighter hrank
      exact (begins t₁ h₁ hmid).weaken (Layer.views_subset hlayer)
  · exact (Written.begins_paren h (by simp) hends).weaken (List.Subset.trans parenView_subset hprimary)

end OperatorTree

end XQuerySyntax
