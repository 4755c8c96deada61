import XQuerySyntax.Proofs.Entry.Word
import XQuerySyntax.Proofs.RoundTrip.Printed

/-! What a prolog begins with. It begins with two words, or with a word and an annotation. An expression
can begin with the first of these as a name, but not with both: no operator is spelled like the second. -/

namespace XQuerySyntax

open Glimpse XQuerySyntax.Parser Grammar

namespace Grammar

open Terminal

/-- The rules that are tried in front of a declaration, each with its first two words. -/
def headRules : List (Rule × List Char × List Char) :=
  [(Terminal.versionDecl, "xquery".toList, "version".toList),
    (encodingDecl, "xquery".toList, "encoding".toList), (moduleDecl, "module".toList, "namespace".toList),
    (importSchema, "import".toList, "schema".toList), (importModule, "import".toList, "module".toList)]

/-- The rules that are tried behind the word that opens a declaration, each with its first word. -/
def declaredRules : List (Rule × List Char) :=
  [(declareBoundarySpace, "boundary-space".toList), (declareDefaultCollation, "default".toList),
    (declareBaseUri, "base-uri".toList), (declareConstruction, "construction".toList),
    (declareOrdering, "ordering".toList), (declareEmptyOrder, "default".toList),
    (declareCopyNamespaces, "copy-namespaces".toList),
    (declareDefaultDecimalFormat, "default".toList), (declareDecimalFormat, "decimal-format".toList),
    (declareDefaultElementNs, "default".toList), (declareDefaultFunctionNs, "default".toList),
    (declareNamespace, "namespace".toList), (declareOption, "option".toList),
    (declareFtOption, "ft-option".toList), (declareRevalidation, "revalidation".toList),
    (declareContextItem, "context".toList), (declareUpdating, "updating".toList),
    (declareSequential, "sequential".toList), (declareSimple, "simple".toList),
    (declareVariable, "variable".toList), (declareFunction, "function".toList)]

end Grammar

/-- The pairs of words by which a prolog begins. -/
def openingWords : List (List Char × List Char) :=
  headRules.map Prod.snd ++ declaredRules.map fun (_, second) => ("declare".toList, second)

/-- The text begins like a prolog, or it has an open comment where a prolog might begin. -/
inductive OpensProlog (text : List Char) : Prop where
  | unclosed (h : Unclosed text)
  | unclosedBehind {first second tail : List Char} (hmem : (first, second) ∈ openingWords)
      (h : Opens first text tail) (hopen : Unclosed tail)
  | words {first second tail tail' : List Char} (hmem : (first, second) ∈ openingWords)
      (h : Opens first text tail) (hapart : startsTrivia true tail = true) (hnext : Opens second tail tail')
  | annotated {tail rest : List Char} (h : Opens "declare".toList text tail)
      (hnext : scanTrivia true tail = .found () ('%' :: rest))

/-! ### What is seen of it -/

/-- What is known of a text that begins with a word of a prolog: the word, and what stands behind it. -/
def openingViews : List (List Char × List Glimpse) :=
  openingWords.map (fun (first, second) => (first, [.gap, .word second])) ++
    [("declare".toList, [.gap, .char '%']), ("declare".toList, [.char '%'])]

/-- What is known of a comment that is not closed, or of what stands in front of it. -/
def unclosedViews : List (List Glimpse) :=
  [[.char ' '], [.char '\t'], [.char '\n'], [.char '\r'], [.char '(', .char ':']]

/-- The words of a prolog with an open comment behind them. -/
def unclosedOpenings : List (List Char × List Glimpse) :=
  openingWords.flatMap fun (first, _) => unclosedViews.map fun view => (first, view)

/-- The words of a prolog are names, and do not stand for anything else in front of an operand. -/
theorem openingViews_begin :
    (openingViews.all fun (first, view) => isName first && isSettled (.word first :: view)) = true ∧
      (keywordRules ++ signRules ++ valueRules ++ literalRules ++ primaryRules ++ stepRules).all fun r =>
        openingViews.all fun (first, view) => Scan.declines .expression r (.word first :: view) := by
  rw [Scan.declines_eq]
  exact ⟨by rfl, by rfl⟩

theorem unclosedOpenings_begin :
    (unclosedOpenings.all fun (first, view) => isName first && isSettled (.word first :: view)) = true ∧
      (keywordRules ++ signRules ++ valueRules ++ literalRules ++ frontRules).all fun r =>
        unclosedOpenings.all fun (first, view) => Scan.declines .expression r (.word first :: view) := by
  rw [Scan.declines_eq]
  exact ⟨by rfl, by rfl⟩

/-- What stands in a prolog behind its first word is no operator. -/
theorem openingViews_follow : openingViews.all fun (_, view) => Layer.all.all fun layer =>
    layer.rules.all fun r => Scan.declines .operator r view := by
  rw [Scan.declines_eq]
  rfl

theorem openingWords_names : openingWords.all fun (_, second) => !second.isEmpty && second.all isNameChar := by
  rfl

theorem openingViews_noColon : openingViews.all fun (_, view) => next? ':' view = none := by
  rfl

namespace Grammar

variable {f : Frame} {saved : List LexicalState} {text tail : List Char} {single : Parser Expr}

/-! ### Parsers that stop -/

/-- What is one level deeper cannot be read if it is too deep, or if it cannot be read there. -/
theorem fails_nested {α : Type} {l : Place} {p : Parser α}
    (h : f.depth < f.maxDepth → Fails { f with depth := f.depth + 1 } l p) : Fails f l (nested p) := by
  intro s hs
  let inner : ParserState := { s with depth := s.depth + 1 }
  have hframe : s.frame = f := hs.frame
  have hinner : inner.At { f with depth := f.depth + 1 } l :=
    ⟨by rw [← hframe]; rfl, hs.rest, hs.stack, hs.caught⟩
  by_cases hlimit : inner.depth > inner.maxDepth
  · refine ⟨.fatal (.error .implementationLimit inner.scan.nextOffset
      ("expression nesting exceeds " ++ toString inner.maxDepth ++ " levels")), inner, ?_⟩
    change (if inner.depth > inner.maxDepth then _ else _ : Parser α) inner = _
    rw [if_pos hlimit]
    rfl
  · have hdepth : f.depth < f.maxDepth := by
      rw [← hframe]
      exact Nat.not_lt.1 hlimit
    exact fails_iff.2 (stops_nested hdepth (fails_iff.1 (h hdepth))) s hs

theorem fails_exprSingle {l : Place} (h : f.depth < f.maxDepth →
      Fails { f with depth := f.depth + 1 } l (singleOf (singleWithin f.size))) :
    Fails f l exprSingle := by
  intro s hs
  have hsteps : s.steps = f.size + 1 := by
    rw [← hs.frame]
    rfl
  have hread := fails_nested h s hs
  change ∃ e s₁, singleWithin s.steps s = .error e s₁
  rw [hsteps]
  exact hread

/-- If something remains the end of the text is missed. -/
theorem fails_expectEnd {stack : StateStack} {c : Char} {rest : List Char}
    (h : scanTrivia true text = .found () (c :: rest)) : Fails f (.at text stack) expectEnd := by
  have hatEnd : Reads f (.at text stack) atEnd (fun b => b = false) (.at text stack) := by
    refine reads_scan fun m hstack hrest => ?_
    have hskip : Scan.lexeme (scanTrivia true) m = .ok (some ()) (m.moveTo (c :: rest)) :=
      Scan.lexeme_found (hrest ▸ h)
    refine ⟨false, (m.moveTo (c :: rest)).moveTo m.cursor.rest, ?_, rfl, ⟨rfl, rfl⟩, hrest, hstack,
      fun _ h => nomatch h⟩
    unfold Scan.atEnd
    rw [hskip]
    rfl
  refine fails_bind hatEnd fun b hb => ?_
  rw [hb]
  exact fun s _ => ⟨_, s, rfl⟩

/-- A rule that stops at malformed text stops the parser. -/
theorem fails_eat {r : Rule} (hcore : r.extension = .core) (hstates : r.states.contains .expression)
    (h : ∀ m : Matcher, m.state = .expression → m.cursor.rest = text →
      ∃ d m', (Scan.skipTrivia >>= fun _ => Scan.items r.items false none) m = .error d m') :
    Fails f (.before saved text) (eat r) := by
  refine fails_iff.2 (stops_eat hcore hstates rfl fun m hm hrest _ => ?_)
  obtain ⟨d, m', hitems⟩ := h m hm hrest
  exact ⟨d, m', hitems, trivial⟩

/-! ### Open comments -/

theorem skipTrivia_unclosed {m : Matcher} (hm : m.state.skipsComments = true)
    (hopen : Unclosed m.cursor.rest) : ∃ d, Scan.skipTrivia m = .error d m := by
  obtain ⟨fault, place, hscan⟩ := hopen
  refine ⟨fault.diagnostic (m.cursor.offsetOf place), ?_⟩
  change EStateM.map _ (Scan.lexeme (scanTrivia m.state.skipsComments)) m = _
  unfold EStateM.map Scan.lexeme
  rw [hm, hscan]

/-- An expression cannot be read in front of an open comment. -/
theorem fails_singleOf_unclosed (hopen : Unclosed text) : Fails f (.before saved text) (singleOf single) := by
  have hfirst : Fails f (.before saved text) (eat Terminal.forTumbling) := by
    refine fails_eat rfl rfl fun m hm hrest => ?_
    obtain ⟨d, hskip⟩ := skipTrivia_unclosed (congrArg LexicalState.skipsComments hm) (hrest ▸ hopen)
    exact ⟨d, m, Scan.bind_error hskip⟩
  have hflwor : Fails f (.before saved text) (flwor single) :=
    fails_bind reads_nextOffset fun _ _ => hfirst.bind.bind
  exact hflwor.bind

/-- Between a name and an open comment it cannot be seen whether the name is that of a function. -/
theorem fails_eat_namedFunctionRef {n : SimpleName} {space : List Char} (hspace : Trivia space)
    (hends : endsName tail) (hcolon : ∀ c ∈ tail.head?, c ≠ ':')
    (hsettled : startsTrivia true (n.chars ++ tail) = false) (hopen : Unclosed tail) :
    Fails f (.before saved (space ++ (n.chars ++ tail))) (eat Terminal.namedFunctionRef) := by
  refine fails_eat rfl rfl fun m hm hrest => ?_
  have hitems : Terminal.namedFunctionRef.items =
      [.capture .qualifiedName, .gap, .char '#', .capture .number] := by
    rfl
  have hskip : Scan.skipTrivia m = .ok () (m.moveTo (n.chars ++ tail)) := by
    refine Scan.skipTrivia_found ?_
    rw [hm, hrest]
    exact scanTrivia_append hspace hsettled
  have hname := Scan.placeholder_qualifiedName (m := m.moveTo (n.chars ++ tail))
    (scanQualifiedName_append n.isName hends hcolon)
  rw [Scan.bind_ok hskip, hitems, Scan.items, Scan.bind_ok hname, if_pos rfl, Scan.items,
    Scan.bind_ok (Scan.separated_eq _)]
  obtain ⟨d, hgap⟩ := skipTrivia_unclosed (m := { m.moveTo tail with captures := _ })
    (congrArg LexicalState.skipsComments hm) hopen
  exact ⟨d, _, Scan.bind_error hgap⟩

theorem fails_orExpr (hsigns : ∀ r ∈ signRules, Declines .expression text r)
    (h : Fails f (.before saved text) (valueExpr single)) : Fails f (.before saved text) (orExpr single) :=
  fails_iff.2 (stops_orExpr hsigns (fails_iff.1 h))

variable {first second : List Char} {view : List Glimpse}

/-- The text begins with a word and goes on as the view says. -/
theorem begins_of_opens (h : Opens first text tail) (hname : isName first)
    (hview : Shows true view tail) : Begins [.word first :: view] text := by
  obtain ⟨hscan, hends⟩ := h
  obtain ⟨space, hspace, rfl, -⟩ := trivia_of_scanTrivia hscan
  have hall : first.all isNameChar := by
    cases first with
    | nil => rfl
    | cons c cs =>
      obtain ⟨hc, hcs⟩ := Bool.and_eq_true_iff.1 hname
      exact Bool.and_eq_true_iff.2 ⟨isNameChar_of_isNameStart hc, hcs⟩
  exact begins_token hspace List.mem_cons_self ⟨tail, rfl, hall, hends, hview⟩

theorem shows_unclosed (hopen : Unclosed tail) : ∃ view ∈ unclosedViews, Shows true view tail := by
  have hstarts := hopen.startsTrivia
  cases tail with
  | nil => cases hstarts
  | cons c rest =>
    rcases Bool.or_eq_true_iff.1 hstarts with hblank | hcomment
    · have hviews : [.char c] ∈ unclosedViews := by
        simp only [List.head?_cons, Option.any_some, isBlank, Bool.or_eq_true, beq_iff_eq] at hblank
        rcases hblank with ((rfl | rfl) | rfl) | rfl <;> decide
      exact ⟨_, hviews, rest, rfl, trivial⟩
    · rw [Bool.true_and] at hcomment
      unfold startsComment at hcomment
      split at hcomment
      · rename_i text heq
        exact ⟨[.char '(', .char ':'], by decide, ':' :: text, heq, text, rfl, trivial⟩
      · cases hcomment

/-- An open comment behind a word stops the reading of an expression. -/
theorem fails_singleOf_unclosedBehind (hmem : (first, second) ∈ openingWords) (h : Opens first text tail)
    (hopen : Unclosed tail) : Fails f (.before saved text) (singleOf single) := by
  obtain ⟨view, hview, hshows⟩ := shows_unclosed hopen
  have hopening : (first, view) ∈ unclosedOpenings :=
    List.mem_flatMap.2 ⟨(first, second), hmem, List.mem_map_of_mem hview⟩
  obtain ⟨hwords, hrules⟩ := unclosedOpenings_begin
  obtain ⟨hname, hsettled⟩ := Bool.and_eq_true_iff.1 (List.all_eq_true.1 hwords _ hopening)
  have hbegins := begins_of_opens h hname hshows
  have hdeclines : ∀ r ∈ keywordRules ++ signRules ++ valueRules ++ literalRules ++ frontRules,
      Declines .expression text r := by
    intro r hr
    have hview := List.all_eq_true.1 (List.all_eq_true.1 hrules r hr) _ hopening
    exact hbegins.declines (by simpa using hsettled) (by simpa using hview)
  have hkeywords : ∀ r ∈ keywordRules, Declines .expression text r :=
    fun r hr => hdeclines r (by simp [hr])
  have hsigns : ∀ r ∈ signRules, Declines .expression text r := fun r hr => hdeclines r (by simp [hr])
  have hvalues : ∀ r ∈ valueRules, Declines .expression text r := fun r hr => hdeclines r (by simp [hr])
  have hprimaries : ∀ r ∈ literalRules ++ frontRules, Declines .expression text r := by
    intro r hr
    exact hdeclines r (by simpa using .inr (.inr (.inr (List.mem_append.1 hr))))
  have hreference : Fails f (.before saved text) (eat Terminal.namedFunctionRef) := by
    obtain ⟨hscan, hends⟩ := h
    obtain ⟨space, hspace, rfl, -⟩ := trivia_of_scanTrivia hscan
    have hcolon : ∀ c ∈ tail.head?, c ≠ ':' :=
      (endsToken.of_startsTrivia hopen.startsTrivia).ne (by decide) (by decide)
    exact fails_eat_namedFunctionRef (n := ⟨first, hname⟩) hspace hends hcolon
      (settled_of_scanTrivia hscan) hopen
  have hprimary : Fails f (.before saved text) (primary single) :=
    (passes_primary hprimaries).fails hreference.bind
  have hvalue : Fails f (.before saved text) (valueExpr single) :=
    (passes_valueExpr hvalues).fails hprimary.bind.bind.bind
  exact (passes_singleOf hkeywords).fails (fails_orExpr hsigns hvalue)

/-! ### Words behind words -/

/-- A name in front of what stands in a prolog is read as a step, and the rest is left. -/
theorem reads_singleOf_opening {n : Nat} (hmem : (first, view) ∈ openingViews) (h : Opens first text tail)
    (hview : Shows true view tail) :
    Reads f (.before saved text) (singleOf (singleWithin n)) (fun _ => True) (.behind saved tail) := by
  obtain ⟨hwords, hrules⟩ := openingViews_begin
  obtain ⟨hname, hsettled⟩ := Bool.and_eq_true_iff.1 (List.all_eq_true.1 hwords _ hmem)
  have hbegins := begins_of_opens h hname hview
  have hdeclines : ∀ r ∈ keywordRules ++ signRules ++ valueRules ++ literalRules ++ primaryRules ++ stepRules,
      Declines .expression text r := by
    intro r hr
    have hview := List.all_eq_true.1 (List.all_eq_true.1 hrules r hr) _ hmem
    exact hbegins.declines (by simpa using hsettled) (by simpa using hview)
  have hbehind (layer : Layer) : ∀ r ∈ layer.rules, Declines .operator tail r := by
    intro r hr
    have hfollow := List.all_eq_true.1 (List.all_eq_true.1 openingViews_follow _ hmem) layer layer.mem_all
    exact declines_of_view (List.all_eq_true.1 hfollow r hr) hview
  have hkeywords : ∀ r ∈ keywordRules, Declines .expression text r :=
    fun r hr => hdeclines r (by simp [hr])
  have hsigns : ∀ r ∈ signRules, Declines .expression text r := fun r hr => hdeclines r (by simp [hr])
  have hvalues : ∀ r ∈ valueRules, Declines .expression text r := fun r hr => hdeclines r (by simp [hr])
  have hprimaries : ∀ r ∈ literalRules ++ primaryRules, Declines .expression text r := by
    intro r hr
    rcases List.mem_append.1 hr with hr | hr <;> exact hdeclines r (by simp [hr])
  have hsteps : ∀ r ∈ stepRules, Declines .expression text r := fun r hr => hdeclines r (by simp [hr])
  have hstep : Takes .expression text Terminal.nameTest tail
      [.qualifiedName ⟨none, SimpleName.text ⟨first, hname⟩⟩] := by
    obtain ⟨hscan, hends⟩ := h
    obtain ⟨space, hspace, rfl, -⟩ := trivia_of_scanTrivia hscan
    refine takes_nameTest (n := ⟨first, hname⟩) hspace (settled_of_scanTrivia hscan) hends ?_
    rintro c hc rfl
    obtain ⟨rest, rfl⟩ := List.head?_eq_some_iff.1 hc
    obtain ⟨_, hnext, -⟩ := hview.next
    have hnone : next? ':' view = none :=
      of_decide_eq_true (List.all_eq_true.1 openingViews_noColon _ hmem)
    rw [hnone] at hnext
    cases hnext
  have hvalue : Reads f (.before saved text) (Layer.primary.parser n) (fun _ => True) (.behind saved tail) :=
    reads_weaken (reads_valueExpr_step hvalues hprimaries hsteps hstep (hbehind .primary)) fun _ _ => trivial
  have hor : Reads f (.before saved text) (Layer.or.parser n) (fun _ => True) (.behind saved tail) :=
    Layer.reads_climb (fun layer _ => hbehind layer) (by decide) (by decide) (fun _ => hsigns) hvalue
  exact reads_singleOf hkeywords hor

/-- An expression up to the end of the text cannot be read where a name is followed by what stands in a
prolog: all that can be read is the name. -/
theorem fails_expressionUnit_opening (hmem : (first, view) ∈ openingViews) (h : Opens first text tail)
    (hview : Shows true view tail) {c : Char} {rest : List Char}
    (hrest : scanTrivia true tail = .found () (c :: rest)) : Fails f (.before saved text) expressionUnit := by
  by_cases hdepth : f.depth < f.maxDepth
  · have hsingle : Reads f (.before saved text) exprSingle (fun _ => True) (.behind saved tail) :=
      OperatorTree.reads_exprSingle (reads_nested hdepth (reads_singleOf_opening hmem h hview))
    have hcomma : Declines .operator tail Terminal.comma := by
      have hfollow := List.all_eq_true.1 (List.all_eq_true.1 openingViews_follow _ hmem) .sequence (by decide)
      exact declines_of_view (List.all_eq_true.1 hfollow Terminal.comma List.mem_cons_self) hview
    exact fails_bind (reads_expr hsingle hcomma) fun _ _ => (fails_expectEnd hrest).bind
  · have hsingle : Fails f (.before saved text) exprSingle := fails_exprSingle fun hlt => (hdepth hlt).elim
    exact hsingle.bind.bind

/-- No expression begins like a prolog. -/
theorem fails_expressionUnit (h : OpensProlog text) : Fails f (.before saved text) expressionUnit := by
  cases h with
  | unclosed hopen =>
    have hsingle : Fails f (.before saved text) exprSingle :=
      fails_exprSingle fun _ => fails_singleOf_unclosed hopen
    exact hsingle.bind.bind
  | unclosedBehind hmem h hopen =>
    have hsingle : Fails f (.before saved text) exprSingle :=
      fails_exprSingle fun _ => fails_singleOf_unclosedBehind hmem h hopen
    exact hsingle.bind.bind
  | @words first second tail tail' hmem h hapart hnext =>
    obtain ⟨hscan, hends⟩ := hnext
    obtain ⟨hne, hname⟩ := Bool.and_eq_true_iff.1 (List.all_eq_true.1 openingWords_names _ hmem)
    cases second with
    | nil => cases hne
    | cons c second =>
      have hview : Shows true [.gap, .word (c :: second)] tail :=
        ⟨_, hapart, hscan, tail', rfl, hname, hends, trivial⟩
      have hopening : (first, [Glimpse.gap, .word (c :: second)]) ∈ openingViews :=
        List.mem_append_left _ (List.mem_map_of_mem hmem)
      exact fails_expressionUnit_opening hopening h hview hscan
  | @annotated tail rest h hnext =>
    by_cases hapart : startsTrivia true tail = true
    · have hview : Shows true [.gap, .char '%'] tail := ⟨_, hapart, hnext, rest, rfl, trivial⟩
      exact fails_expressionUnit_opening (List.mem_append_right _ List.mem_cons_self) h hview hnext
    · rw [scanTrivia_none (by simpa using hapart)] at hnext
      cases hnext
      exact fails_expressionUnit_opening (List.mem_append_right _ (List.mem_cons_of_mem _ List.mem_cons_self)) h ⟨rest, rfl, trivial⟩
        (scanTrivia_none (by simpa using hapart))

end Grammar

end XQuerySyntax
