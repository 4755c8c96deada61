import XQuerySyntax.Proofs.Path.Source

/-! What a step begins with and what may come behind it. A step begins with the name of an axis, with one
of the marks that abbreviate it, or with its test. No rule that is tried in front of a path takes any of
these, although most of them look for a word that a name may be. -/

namespace XQuerySyntax

open XQuerySyntax.Parser Glimpse Grammar

/-! ### What comes behind -/

/-- What may come behind a path: the end of the text, or of brackets around the path. -/
def closingViews : List (List Glimpse) := [[.stop], [.char ']'], [.char ')'], [.char '\x7d']]

/-- What may come behind a step. -/
def behindStepViews : List (List Glimpse) := closingViews ++ [[.char '['], [.char '/']]

variable {views : List (List Glimpse)} {text mid rest : List Char}

/-- Where the views begin there is one of them, or space and then one of them. -/
theorem Begins.shows (h : Begins views text) (hsettled : views.all isSettled) :
    ∃ view ∈ views, Shows true view text ∨ Shows true (.gap :: view) text := by
  obtain ⟨space, body, view, rfl, hspace, hview, hs⟩ := h
  refine ⟨view, hview, ?_⟩
  have hset : isSettled view := List.all_eq_true.1 hsettled view hview
  -- Space in front is seen as one gap, whatever it is made of.
  by_cases hne : space = []
  · subst hne
    exact .inl hs
  · have hskip := scanTrivia_append hspace (hs.settled hset)
    exact .inr ⟨body, hspace.startsTrivia hne body, hskip, hs⟩

/-- A character that is no space does not come first if no view begins with it. -/
theorem Begins.head_ne (h : Begins views text) (hsettled : views.all isSettled) {c : Char}
    (hspace : (isBlank c || c == '(') = false) (hviews : (views.all fun view => next? c view = none) = true) :
    ∀ d ∈ text.head?, d ≠ c := by
  rintro d hd rfl
  obtain ⟨text, rfl⟩ := List.head?_eq_some_iff.1 hd
  obtain ⟨view, hview, hs | hs⟩ := h.shows hsettled
  · obtain ⟨behind, hnext, -⟩ := hs.next
    have hnone : next? d view = none := of_decide_eq_true (List.all_eq_true.1 hviews view hview)
    rw [hnone] at hnext
    cases hnext
  · obtain ⟨behind, hnext, -⟩ := hs.next
    rw [Bool.or_eq_false_iff, beq_eq_false_iff_ne] at hspace
    have hnone : next? d (.gap :: view) = none := if_neg (by simp [hspace])
    rw [hnone] at hnext
    cases hnext

/-- Rules are told apart from what comes behind by its first character. -/
theorem Begins.declines_rules {state : LexicalState} {rules : List Rule} (h : Begins views text)
    (hr : (rules.all fun r => Scan.declinesEvery state r views) = true) :
    ∀ r ∈ rules, Declines state text r :=
  fun r hmem => h.declinesEvery (List.all_eq_true.1 hr r hmem)

/-- A path is no operand of what comes behind it, and no predicate, call or step goes on with it. -/
theorem closingViews_decline :
    ((Layer.all.flatMap Layer.rules).all fun r => Scan.declinesEvery .operator r closingViews) = true := by
  rw [Scan.declinesEvery_eq]
  rfl

theorem Begins.declines_layer (h : Begins closingViews text) (layer : Layer) :
    ∀ r ∈ layer.rules, Declines .operator text r :=
  fun r hr => h.declines_rules closingViews_decline r (List.mem_flatMap.2 ⟨layer, Layer.mem_all layer, hr⟩)

theorem begins_bracket {space : List Char} (hspace : Trivia space) (rest : List Char) :
    Begins closingViews (space ++ ']' :: rest) :=
  ⟨space, _, [.char ']'], rfl, hspace, by simp [closingViews], _, rfl, trivial⟩

/-- No piece goes on with a bracket. -/
theorem apart_bracket (piece : Piece) (rest : List Char) : piece.Apart (']' :: rest) := by
  have hhead : ∀ c ∈ (']' :: rest).head?, c = ']' := by
    rintro c ⟨⟩
    rfl
  have hends : endsName (']' :: rest) := by
    intro c hc
    rw [hhead c hc]
    decide
  have hmarks : ∀ c ∈ (']' :: rest).head?, c ≠ ':' ∧ c ≠ '"' ∧ c ≠ '\'' := by
    intro c hc
    rw [hhead c hc]
    decide
  cases piece with
  | mark spelling =>
    by_cases hword : isKeyword spelling.toList
    · rw [Piece.Apart, if_pos hword]
      exact hends
    · rw [Piece.Apart, if_neg hword]
      exact fun c hc => (hmarks c hc).1
  | _ => exact ⟨hends, hmarks⟩

/-! ### What a step begins with -/

/-- A name and what may come behind it. -/
def nameTestViews : List (List Glimpse) :=
  behindStepViews.flatMap fun view => [[.name], [.name, .char ':', .name]].flatMap fun name =>
    [name ++ view, name ++ .gap :: view]

/-- What a test of names begins with. -/
def testViews : List (List Glimpse) :=
  nameTestViews ++
    [Piece.front (.mark "*"), [.name, .char ':', .char '*'], [.char '*', .char ':', .name]]

/-- What a test of kinds begins with. -/
def kindViews : List (List Glimpse) := kindTable.flatMap fun entry => pairViews entry.1 "("

/-- What a step with its axis begins with. -/
def axisViews : List (List Glimpse) := Axis.named.flatMap fun entry => pairViews entry.1 "::"

/-- What a step begins with that is not the step to the parent. -/
def childViews : List (List Glimpse) :=
  testViews ++ kindViews ++ axisViews ++ [Piece.front (.mark "@")]

/-- What a step begins with. -/
def stepViews : List (List Glimpse) := Piece.front (.mark "..") :: childViews

namespace StepTest

theorem begins_name {n : LexicalName} (h : (name n).Lays text rest) (hrest : Begins behindStepViews rest) :
    Begins nameTestViews text := by
  obtain ⟨view, hview, hs⟩ := hrest.shows rfl
  cases h with
  | cons hspace hchars hapart htext =>
    cases htext
    obtain ⟨hlexical, rfl⟩ := hchars
    -- The name has a qualifier or none, and space behind it or none.
    have hname : QName.view ⟨n.qualifier, n.localPart, none⟩ ∈ [[.name], [.name, .char ':', .name]] := by
      unfold QName.view
      split <;> simp
    rcases hs with hs | hs
    all_goals
      refine begins_token hspace ?_ (QName.shows_view hlexical hapart.1 hs)
      refine List.mem_flatMap.2 ⟨view, hview, List.mem_flatMap.2 ⟨_, hname, ?_⟩⟩
      simp

/-- A kind test is written as a call of its keyword. -/
theorem pieces_kind (test : KindTest) :
    test.keyword ∈ kindTable.map Prod.fst ∧ ∃ args, test.pieces = callPieces test.keyword args := by
  rcases test with (_ | root) | _ | _ | _ | _ | _ | _ | _ | _ | _
  all_goals exact ⟨by simp [KindTest.keyword, kindTable], _, rfl⟩

theorem begins_kind {test : KindTest} (h : (kind test).Lays text rest) : Begins kindViews text := by
  obtain ⟨hmem, args, hpieces⟩ := pieces_kind test
  obtain ⟨⟨word, r⟩, hentry, hword⟩ := List.mem_map.1 hmem
  obtain rfl : word = test.keyword := hword
  have hcall : Laid (.mark test.keyword :: .mark "(" :: (args ++ [Piece.mark ")"])) text rest := by
    have hlaid : Laid test.pieces text rest := h
    rwa [hpieces] at hlaid
  have hphrase := List.all_eq_true.1 (List.all_eq_true.1 kindTable_phrases _ hentry) .expression (by decide)
  simp only [Bool.and_eq_true] at hphrase
  refine (hcall.begins_pair hphrase.1.2).weaken fun view hview => ?_
  exact List.mem_flatMap.2 ⟨_, hentry, hview⟩

/-- A test of names begins in one of three ways with a star, or with its name. -/
theorem begins_names {test : StepTest} (h : test.Lays text rest) (hrest : Begins behindStepViews rest)
    (hnames : ∀ t, test ≠ kind t) : Begins testViews text := by
  cases test with
  | name n => exact (begins_name h hrest).weaken (List.subset_append_left _ _)
  | any =>
    have hstar : Laid [.mark "*"] text rest := h
    exact hstar.begins_front.weaken (by simp [testViews])
  | inNamespace q =>
    obtain ⟨space, hspace, hq, rfl⟩ := h
    have hs : Shows true [.name, .char ':', .char '*'] (q.toList ++ ':' :: '*' :: rest) :=
      ⟨q.toList, ':' :: '*' :: rest, rfl, hq, QName.endsName_colon _, _, rfl, _, rfl, trivial⟩
    exact ⟨space, _, _, rfl, hspace, by simp [testViews], hs⟩
  | localPart l =>
    obtain ⟨space, hspace, hl, hends, rfl⟩ := h
    have hs : Shows true [.char '*', .char ':', .name] ('*' :: ':' :: (l.toList ++ rest)) :=
      ⟨_, rfl, _, rfl, l.toList, rest, rfl, hl, hends, trivial⟩
    exact ⟨space, _, _, rfl, hspace, by simp [testViews], hs⟩
  | kind test => exact absurd rfl (hnames test)

end StepTest

theorem Axis.mem_named (axis : Axis) : (axis.name, axis) ∈ Axis.named := by
  cases axis <;> decide

/-- The names of axes are keywords. -/
theorem Axis.isKeyword_name (axis : Axis) : isKeyword axis.name.toList := by
  cases axis <;> decide

namespace StepForm

variable {form : StepForm}

/-- What a step begins with. -/
def fronts : StepForm → List (List Glimpse)
  | full .. => axisViews
  | bare (.kind _) => kindViews
  | bare _ => testViews
  | .attribute _ => [Piece.front (.mark "@")]
  | parent => [Piece.front (.mark "..")]

theorem fronts_subset (form : StepForm) : form.fronts ⊆ stepViews := by
  intro view hview
  unfold fronts at hview
  split at hview <;> simp_all [stepViews, childViews]

theorem fronts_subset_child (hform : form ≠ parent) : form.fronts ⊆ childViews := by
  intro view hview
  unfold fronts at hview
  split at hview <;> simp_all [childViews]

theorem begins_fronts (h : form.Lays text rest) (hrest : Begins behindStepViews rest) : Begins form.fronts text := by
  cases form with
  | full axis test =>
    obtain ⟨mid, haxis, -⟩ := h
    refine (haxis.begins_pair axis.isKeyword_name).weaken fun view hview => ?_
    exact List.mem_flatMap.2 ⟨_, axis.mem_named, hview⟩
  | bare test =>
    have htest : test.Lays text rest := h
    cases test with
    | kind t => exact StepTest.begins_kind htest
    | name _ | any | inNamespace _ | localPart _ =>
      exact StepTest.begins_names htest hrest (by simp)
  | «attribute» test =>
    obtain ⟨mid, hat, -⟩ := h
    exact hat.begins_front
  | parent =>
    have hdots : Laid [.mark ".."] text rest := h
    exact hdots.begins_front

theorem begins_step (h : form.Lays text rest) (hrest : Begins behindStepViews rest) : Begins stepViews text :=
  (begins_fronts h hrest).weaken form.fronts_subset

end StepForm

/-! ### The rules that are declined -/

/-- The rules that are tried in front of every step, other than those that begin with a dot. -/
def operandRules : List Rule :=
  keywordRules ++ signRules ++ valueRules ++ literalRules ++ constructorRules ++
    [Terminal.orderedBlock, Terminal.unorderedBlock, Terminal.annotationName, Terminal.inlineFunction,
      Terminal.namedFunctionRef]

/-- No step is taken for an expression with a keyword, a value or a primary expression. -/
theorem operandRules_decline :
    (operandRules.all fun r => Scan.declinesEvery .expression r stepViews) = true := by
  rw [Scan.declinesEvery_eq]
  decide +kernel

/-- Only the step to the parent begins with a dot. -/
theorem dotRules_decline :
    ([Terminal.parentStep, Terminal.contextItem].all fun r =>
      Scan.declinesEvery .expression r childViews) = true := by
  rw [Scan.declinesEvery_eq]
  rfl

/-- Of all steps only a kind test that stands alone looks like a call. -/
theorem callRule_declines :
    ([Terminal.functionCall].all fun r => Scan.declinesEvery .expression r
      (testViews ++ axisViews ++ [Piece.front (.mark "@"), Piece.front (.mark "..")])) = true := by
  rw [Scan.declinesEvery_eq]
  rfl

/-- Behind the rule of axes only steps without a written axis are left. -/
theorem axisRule_declines :
    ([Terminal.axis].all fun r => Scan.declinesEvery .expression r
      (testViews ++ kindViews ++ [Piece.front (.mark "@"), Piece.front (.mark "..")])) = true := by
  rw [Scan.declinesEvery_eq]
  rfl

theorem attributeRule_declines :
    ([Terminal.abbrevAttribute].all fun r => Scan.declinesEvery .expression r
      (testViews ++ kindViews ++ [Piece.front (.mark "..")])) = true := by
  rw [Scan.declinesEvery_eq]
  rfl

/-- A test of names is not taken for one of kinds. -/
theorem kindRules_decline :
    (kindRules.all fun r => Scan.declinesEvery .expression r testViews) = true := by
  rw [Scan.declinesEvery_eq]
  rfl

end XQuerySyntax
