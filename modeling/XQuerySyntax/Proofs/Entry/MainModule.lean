import XQuerySyntax.Proofs.Comparison.Afresh
import XQuerySyntax.Proofs.Comparison.Expr
import XQuerySyntax.Proofs.Entry.Declare
import XQuerySyntax.Proofs.Tree.Parse

/-! Expressions as main modules. Where an expression begins no prolog does, so the parser of modules looks
for one in vain and comes back to where it began. Only the last token may have changed, and what was
captured there; an expression does not depend on these. -/

namespace XQuerySyntax

open XQuerySyntax.Parser

/-- The same state behind another token. -/
def ParserState.behindToken (s : ParserState) (token : List Char) (captures : Captures) : ParserState :=
  { s with scan := { s.scan with token, captures } }

namespace Parser

variable {α β : Type} {place : Matcher.Mark} {p : Parser α} {a : α} {b : β}

/-- At this place in the text and in the lexical state the parser gives this answer and stays where it
is, though perhaps behind another token. -/
def Idles (place : Matcher.Mark) (p : Parser α) (a : α) : Prop :=
  ∀ s : ParserState, s.scan.mark = place → ∃ token captures, p s = .ok a (s.behindToken token captures)

theorem idles_pure : Idles place (pure a) a := fun s _ => ⟨s.scan.token, s.scan.captures, rfl⟩

theorem idles_bind {next : α → Parser β} (h : Idles place p a) (hn : Idles place (next a) b) :
    Idles place (p >>= next) b := by
  intro s hs
  obtain ⟨token, captures, hp⟩ := h s hs
  obtain ⟨token', captures', hnext⟩ := hn (s.behindToken token captures) hs
  exact ⟨token', captures', (bind_of_ok hp).trans hnext⟩

theorem idles_mark {next : Matcher.Mark → Parser β} (h : Idles place (next place) b) :
    Idles place (mark >>= next) b := by
  rintro s rfl
  exact h s rfl

theorem eat_of_declined {r : Rule} {s : ParserState} (h : Scan.Declined r s.scan) :
    ∃ captures, eat r s = .ok false (s.behindToken s.scan.token captures) := by
  obtain ⟨captures, heat, -⟩ := h
  refine ⟨captures, ?_⟩
  unfold eat scan
  rw [heat]
  rfl

theorem idles_eat {r : Rule} (h : Declines place.stack.active place.rest r) :
    Idles place (eat r) false := by
  rintro s rfl
  obtain ⟨captures, heat⟩ := eat_of_declined (h s.scan rfl rfl)
  exact ⟨s.scan.token, captures, heat⟩

theorem idles_peek {r : Rule} (h : Declines place.stack.active place.rest r) :
    Idles place (peek r) false := by
  rintro s rfl
  obtain ⟨captures, -, hpeek⟩ := h s.scan rfl rfl
  refine ⟨s.scan.token, captures, ?_⟩
  unfold peek scan
  rw [hpeek]
  rfl

theorem idles_ifEat {r : Rule} {yes no : Parser β} (h : Declines place.stack.active place.rest r)
    (hno : Idles place no b) :
    Idles place (eat r >>= fun matched => if matched = true then yes else no) b :=
  idles_bind (idles_eat h) hno

theorem idles_eatFirst {rules : List (Rule × α)}
    (h : ∀ o ∈ rules, Declines place.stack.active place.rest o.1) : Idles place (eatFirst rules) none := by
  induction rules with
  | nil => exact idles_pure
  | cons o rules ih =>
    exact idles_ifEat (h o List.mem_cons_self) (ih fun o' ho' => h o' (List.mem_cons_of_mem o ho'))

/-- A loop whose first round ends it. -/
theorem idles_iterate {σ : Type} {step : σ → Parser (σ ⊕ α)} {init : σ} (h : Idles place (step init) (.inr a)) :
    Idles place (iterate step init) a := by
  intro s hs
  have hround : Idles place (iterateWithin step (s.scan.cursor.size + 1) init) a := idles_bind h idles_pure
  exact hround s hs

end Parser

namespace Grammar

variable {text : List Char} {stack : StateStack}

/-! ### The prolog -/

theorem idles_setterDecl {place : List Char} (hactive : stack.active = .declare)
    (h : ∀ r ∈ declaredRules.map Prod.fst, Declines .declare place r) (offset : Nat) :
    Idles ⟨place, stack⟩ (setterDecl offset) none := by
  have hrules : ∀ r ∈ declaredRules.map Prod.fst, Declines stack.active place r := by rwa [hactive]
  apply idles_ifEat (hrules Terminal.declareBoundarySpace (by simp [declaredRules]))
  apply idles_ifEat (hrules Terminal.declareDefaultCollation (by simp [declaredRules]))
  apply idles_ifEat (hrules Terminal.declareBaseUri (by simp [declaredRules]))
  apply idles_ifEat (hrules Terminal.declareConstruction (by simp [declaredRules]))
  apply idles_ifEat (hrules Terminal.declareOrdering (by simp [declaredRules]))
  apply idles_ifEat (hrules Terminal.declareEmptyOrder (by simp [declaredRules]))
  apply idles_ifEat (hrules Terminal.declareCopyNamespaces (by simp [declaredRules]))
  apply idles_ifEat (hrules Terminal.declareDefaultDecimalFormat (by simp [declaredRules]))
  apply idles_ifEat (hrules Terminal.declareDecimalFormat (by simp [declaredRules]))
  apply idles_ifEat (hrules Terminal.declareDefaultElementNs (by simp [declaredRules]))
  apply idles_ifEat (hrules Terminal.declareDefaultFunctionNs (by simp [declaredRules]))
  apply idles_ifEat (hrules Terminal.declareNamespace (by simp [declaredRules]))
  exact idles_pure

theorem idles_componentDecl {place : List Char} (hactive : stack.active = .declare)
    (h : ∀ r ∈ declaredRules.map Prod.fst, Declines .declare place r)
    (hname : Glimpse.Shows true [.name] place) (offset : Nat) :
    Idles ⟨place, stack⟩ (componentDecl offset) none := by
  have hrules : ∀ r ∈ declaredRules.map Prod.fst, Declines stack.active place r := by rwa [hactive]
  have hannotation : Declines stack.active place Terminal.annotationName := by
    rw [hactive]
    exact declines_of_view (by decide +kernel) hname
  have hannotations : Idles ⟨place, stack⟩ annotationList [] := by
    refine idles_iterate (idles_bind (a := none) ?_ idles_pure)
    exact idles_ifEat hannotation idles_pure
  have hkinds : ∀ o ∈ [(Terminal.declareUpdating, FunctionKind.updating),
      (Terminal.declareSequential, .sequential), (Terminal.declareSimple, .simple)],
      Declines stack.active place o.1 := by
    intro o ho
    apply hrules
    simp only [List.mem_cons, List.not_mem_nil, or_false] at ho
    rcases ho with rfl | rfl | rfl <;> simp [declaredRules]
  have hkind : Idles ⟨place, stack⟩ functionKind .simple :=
    idles_bind (idles_eatFirst hkinds) idles_pure
  refine idles_bind hannotations (idles_bind hkind ?_)
  apply idles_ifEat (hrules Terminal.declareVariable (by simp [declaredRules]))
  apply idles_ifEat (hrules Terminal.declareFunction (by simp [declaredRules]))
  exact idles_pure

/-- Behind the word that opens declarations nothing is declared, and the word was a name. -/
theorem idles_declared {place : List Char} (hactive : stack.active = .declare)
    (h : ∀ r ∈ declaredRules.map Prod.fst, Declines .declare place r)
    (hname : Glimpse.Shows true [.name] place) (offset : Nat) :
    Idles ⟨place, stack⟩ (declared offset) none := by
  have hrules : ∀ r ∈ declaredRules.map Prod.fst, Declines stack.active place r := by rwa [hactive]
  refine idles_bind (idles_setterDecl hactive h offset) ?_
  apply idles_ifEat (hrules Terminal.declareOption (by simp [declaredRules]))
  apply idles_ifEat (hrules Terminal.declareFtOption (by simp [declaredRules]))
  apply idles_ifEat (hrules Terminal.declareRevalidation (by simp [declaredRules]))
  apply idles_ifEat (hrules Terminal.declareContextItem (by simp [declaredRules]))
  exact idles_bind (idles_componentDecl hactive h hname offset) idles_pure

/-- What comes behind the rules of imports: a declaration, or nothing and the way back. -/
def declareHead (place : Matcher.Mark) : Parser (Option DeclarationHead) := do
  if (← eatFirst [(Terminal.declareWord, ()), (Terminal.declareAnnotated, ())]).isNone then
    return none
  let offset ← start
  match ← declared offset with
  | some (kind, part) => return some ⟨⟨kind, offset⟩, part, none⟩
  | none =>
    restore place
    return none

theorem idles_declareHead (hactive : stack.active = .expression) (hno : ¬OpensProlog text) :
    Idles ⟨text, stack⟩ (declareHead ⟨text, stack⟩) none := by
  intro s hs
  have hrest : s.scan.cursor.rest = text := congrArg Matcher.Mark.rest hs
  have hstack : s.scan.stack = stack := congrArg Matcher.Mark.stack hs
  have hstate : s.scan.state = .expression := by rw [Matcher.state, hstack, hactive]
  rcases Scan.declareWord_settles hstate (hrest ▸ hno) with hdeclined | ⟨m₁, heat⟩
  · obtain ⟨captures, heat⟩ := eat_of_declined hdeclined
    have hannotated : ∀ o ∈ [(Terminal.declareAnnotated, ())], Declines stack.active text o.1 := by
      rintro _ (_ | ⟨_, ⟨⟩⟩)
      rw [hactive]
      exact Scan.declareAnnotated_declined hno
    have hidles : Idles ⟨text, stack⟩ (eatFirst [(Terminal.declareAnnotated, ())]) none :=
      idles_eatFirst hannotated
    obtain ⟨token, captures', hfirst⟩ := hidles (s.behindToken s.scan.token captures) hs
    have hnone : eatFirst [(Terminal.declareWord, ()), (Terminal.declareAnnotated, ())] s =
        .ok none (s.behindToken token captures') := (bind_of_ok heat).trans hfirst
    exact ⟨token, captures', bind_of_ok hnone⟩
  · obtain ⟨tail, place, token, captures, hopens, hapart, hplace, hname, hm₁⟩ := Scan.eat_declareWord heat
    rw [hrest] at hopens
    have hrules := Scan.declaredRules_declined hno hopens hapart hplace
    have hword : eat Terminal.declareWord s = .ok true { s with scan := m₁ } := by
      unfold eat scan
      rw [heat]
    have hsome : eatFirst [(Terminal.declareWord, ()), (Terminal.declareAnnotated, ())] s =
        .ok (some ()) { s with scan := m₁ } := bind_of_ok hword
    have hmark : ({ s with scan := m₁ } : ParserState).scan.mark = ⟨place, stack.goto .declare⟩ := by
      rw [hm₁, ← hstack]
      rfl
    have hidles : Idles ⟨place, stack.goto .declare⟩ (declared m₁.tokenStart) none :=
      idles_declared rfl hrules hname _
    obtain ⟨token', captures', hdeclared⟩ := hidles { s with scan := m₁ } hmark
    refine ⟨token', captures', (bind_of_ok hsome).trans ?_⟩
    refine (bind_of_ok hdeclared).trans ?_
    rw [hm₁, ← hrest, ← hstack]
    rfl

theorem idles_declarationHead (hactive : stack.active = .expression) (hno : ¬OpensProlog text) :
    Idles ⟨text, stack⟩ declarationHead none := by
  have hrules : ∀ r ∈ headRules.map Prod.fst, Declines stack.active text r := by
    rw [hactive]
    exact Scan.headRules_declined hno
  refine idles_mark ?_
  apply idles_ifEat (hrules Terminal.importSchema (by simp [headRules]))
  apply idles_ifEat (hrules Terminal.importModule (by simp [headRules]))
  exact idles_declareHead hactive hno

theorem idles_versionDecl (hactive : stack.active = .expression) (hno : ¬OpensProlog text) :
    Idles ⟨text, stack⟩ versionDecl none := by
  have hrules : ∀ r ∈ headRules.map Prod.fst, Declines stack.active text r := by
    rw [hactive]
    exact Scan.headRules_declined hno
  apply idles_ifEat (hrules Terminal.versionDecl (by simp [headRules]))
  apply idles_ifEat (hrules Terminal.encodingDecl (by simp [headRules]))
  exact idles_pure

/-! ### The body -/

/-- The end of the text is met where only space remains. -/
theorem expectEnd_ok_iff {s : ParserState} :
    (∃ s₁, expectEnd s = .ok () s₁) ↔ scanTrivia true s.scan.cursor.rest = .found () [] := by
  constructor
  · rintro ⟨s₁, h⟩
    obtain ⟨ended, s₂, hatEnd, h⟩ := of_bind_ok h
    unfold atEnd scan Scan.atEnd Scan.lexeme at hatEnd
    cases hscan : scanTrivia true s.scan.cursor.rest with
    | absent => exact (scanTrivia_ne_absent _ _ hscan).elim
    | faulty fault place =>
      rw [hscan] at hatEnd
      cases hatEnd
    | found _ rest =>
      rw [hscan] at hatEnd
      cases hatEnd
      cases rest with
      | nil => rfl
      | cons c rest => cases h
  · intro hscan
    have hskip : Scan.lexeme (scanTrivia true) s.scan = .ok (some ()) (s.scan.moveTo []) :=
      Scan.lexeme_found hscan
    have hatEnd : atEnd s = .ok true { s with scan := (s.scan.moveTo []).moveTo s.scan.cursor.rest } := by
      unfold atEnd scan Scan.atEnd
      rw [hskip]
      rfl
    exact ⟨_, (bind_of_ok hatEnd).trans rfl⟩

/-- Where only space remains no separator of statements comes next. -/
theorem statementSeparator_declined {m : Matcher} (h : scanTrivia true m.cursor.rest = .found () []) :
    Scan.Declined Terminal.statementSeparator m := by
  by_cases hadmits : m.admits Terminal.statementSeparator
  swap
  · refine Scan.declined_of_answer ?_
    rw [Scan.answer_eat, if_neg hadmits]
  have hstate : m.state = .expression ∨ m.state = .operator := by
    have hcontains := (Bool.and_eq_true_iff.1 hadmits).1
    cases hs : m.state <;> rw [hs] at hcontains <;> first
      | exact .inl rfl
      | exact .inr rfl
      | cases hcontains
  have hcomments : m.state.skipsComments = true := by rcases hstate with hs | hs <;> rw [hs] <;> rfl
  obtain ⟨view, hview, hshows⟩ : ∃ view ∈ [[Glimpse.stop], [.gap, .stop]],
      Glimpse.Shows true view m.cursor.rest := by
    by_cases hstarts : startsTrivia true m.cursor.rest = true
    · exact ⟨[.gap, .stop], by simp, [], hstarts, h, rfl⟩
    · rw [scanTrivia_none (by simpa using hstarts)] at h
      exact ⟨[.stop], by simp, (Scanned.found.inj h).2⟩
  have hdeclines : ∀ state ∈ [LexicalState.expression, .operator], ∀ view ∈ [[Glimpse.stop], [.gap, .stop]],
      Scan.declines state Terminal.statementSeparator view := by
    decide +kernel
  exact Scan.declined (hdeclines m.state (by simpa using hstate) view hview) (hcomments ▸ hshows)

/-- Behind a prolog that is not there an expression is the body of a module. -/
theorem queryBody_of_expressionUnit {s s₁ : ParserState} {e : Expr} (h : expressionUnit s = .ok e s₁) :
    ∃ s₂ s₃, queryBody exprSingle s = .ok e s₂ ∧ expectEnd s₂ = .ok () s₃ := by
  obtain ⟨e', s₂, hexpr, h⟩ := of_bind_ok h
  obtain ⟨_, s₃, hend, h⟩ := of_bind_ok h
  cases h
  have hspace := expectEnd_ok_iff.1 ⟨_, hend⟩
  obtain ⟨captures, heat⟩ := eat_of_declined (statementSeparator_declined hspace)
  obtain ⟨s₄, hend'⟩ := expectEnd_ok_iff (s := s₂.behindToken s₂.scan.token captures).2 hspace
  have hbody : queryBody exprSingle s = .ok e (s₂.behindToken s₂.scan.token captures) :=
    (bind_of_ok hexpr).trans (bind_of_ok heat)
  exact ⟨_, s₄, hbody, hend'⟩

/-- The last token in front of an expression does not matter. -/
theorem expressionUnit_behindToken {text : String} {config : Config} {e : Expr} {s₁ : ParserState}
    (h : expressionUnit (.ofText text config) = .ok e s₁) (token : List Char) (captures : Captures) :
    ∃ s₂, expressionUnit ((ParserState.ofText text config).behindToken token captures) = .ok e s₂ := by
  have hnear : (Comparison.afresh config.maxDepth).Near .anywhere (.ofText text config)
      ((ParserState.ofText text config).behindToken token captures) :=
    { scan := ⟨rfl, rfl, rfl, rfl, fun h => (h rfl).elim⟩
      context := .of_eq rfl
      recorded := .refl_nil rfl
      module := rfl
      depth := rfl
      limit := rfl
      limit_le := Nat.le_refl _
      limit_eq _ := rfl
      libraryNamespace _ := rfl
      declaredPrefixes _ := rfl }
  have hagree := (pairs_expressionUnit .anywhere).follows not_false _ _ hnear
  rw [h] at hagree
  rcases hagree with ⟨hon, -⟩ | ⟨-, e', s₂, hr, hlike, -⟩
  · exact hon.elim
  have hmoved : e.moved id = e'.moved id := hlike
  rw [Expr.moved_id, Expr.moved_id] at hmoved
  exact ⟨s₂, hmoved ▸ hr⟩

/-! ### Whole texts -/

/-- No text that is an expression begins like a prolog. -/
theorem not_opensProlog {text : String} {config : Config} {e : Expr} {s₁ : ParserState}
    (h : expressionUnit (.ofText text config) = .ok e s₁) : ¬OpensProlog text.toList := by
  intro hopens
  have hs : (ParserState.ofText text config).At (wholeFrame text config) (.before [] text.toList) :=
    ⟨rfl, rfl, rfl, fun _ h => nomatch h⟩
  obtain ⟨stop, s₂, hfails⟩ := fails_expressionUnit hopens _ hs
  rw [h] at hfails
  cases hfails

variable {σ : Type} {imports : σ}

theorem lift_of_ok {α : Type} {p : Parser α} {a : α} {s s₁ : ParserState} (h : p s = .ok a s₁) :
    lift p (s, imports) = .ok a (s₁, imports) := by
  unfold lift
  dsimp only
  rw [h]

/-- A text that is an expression is a main module without a prolog, whatever modules can be imported. -/
theorem moduleUnit_of_expressionUnit (importer : Option (Importer σ)) (imports : σ)
    {kind : Option ModuleKind} (hkind : kind ≠ some .library) (hasLocation : Bool) {text : String} {config : Config} {e : Expr}
    {s₁ : ParserState} (h : expressionUnit (.ofText text config) = .ok e s₁) :
    ∃ s₂, moduleUnit importer kind hasLocation (.ofText text config, imports) =
      .ok (.main ⟨none, []⟩ e) (s₂, imports) := by
  have hno := not_opensProlog h
  have hactive : (StateStack.ofState .expression).active = .expression := rfl
  have hmodule : Declines .expression text.toList Terminal.moduleDecl :=
    Scan.headRules_declined hno Terminal.moduleDecl (by simp [headRules])
  obtain ⟨token₁, captures₁, hversion⟩ := idles_versionDecl hactive hno (.ofText text config) rfl
  have hidles : Idles ⟨text.toList, .ofState .expression⟩ (peek Terminal.moduleDecl) false := idles_peek hmodule
  obtain ⟨token₂, captures₂, hlibrary⟩ := hidles ((ParserState.ofText text config).behindToken token₁ captures₁) rfl
  obtain ⟨token₃, captures₃, hhead⟩ := idles_declarationHead hactive hno
    ((ParserState.ofText text config).behindToken token₂ captures₂) rfl
  obtain ⟨s₂, hunit⟩ := expressionUnit_behindToken h token₃ captures₃
  obtain ⟨s₃, s₄, hbody, hend⟩ := queryBody_of_expressionUnit hunit
  let s₀ := (ParserState.ofText text config).behindToken token₂ captures₂
  have hdeclarations : declarationsWithin importer s₀.steps .setup (s₀, imports) =
      .ok [] ((ParserState.ofText text config).behindToken token₃ captures₃, imports) :=
    (bind_of_ok (lift_of_ok hhead)).trans rfl
  have hprolog : prolog importer none (s₀, imports) =
      .ok ⟨none, []⟩ ((ParserState.ofText text config).behindToken token₃ captures₃, imports) :=
    (bind_of_ok hdeclarations).trans rfl
  have hmain : mainModule importer none (s₀, imports) = .ok (.main ⟨none, []⟩ e) (s₄, imports) := by
    refine (bind_of_ok hprolog).trans ?_
    exact (bind_of_ok (lift_of_ok hbody)).trans ((bind_of_ok (lift_of_ok hend)).trans rfl)
  refine ⟨s₄, (bind_of_ok (lift_of_ok hversion)).trans ((bind_of_ok (lift_of_ok hlibrary)).trans ?_)⟩
  match kind, hkind with
  | none, _ => exact hmain
  | some .main, _ => exact hmain

end Grammar

open Grammar

/-- A text that is parsed as an expression is parsed as a main module, too. The module has no version
declaration and nothing in its prolog, and its body is the same expression, at the same places. -/
theorem expression_is_main_module :
    ∀ (text : String) (config : Config) (e : Expr), parseExpression text config = .ok e →
      ∃ m, parseMainModule text config = .ok m ∧ m.module = .main ⟨none, []⟩ e := by
  intro text config e h
  unfold parseExpression at h
  cases hunit : expressionUnit (.ofText text config) <;> rw [hunit] at h <;> cases h
  have hkind : some ModuleKind.main ≠ some .library := nofun
  obtain ⟨s₂, hmodule⟩ := moduleUnit_of_expressionUnit none () hkind config.sourceUri.isSome hunit
  unfold parseMainModule parseModule parseModuleWith
  rw [hmodule]
  exact ⟨_, rfl, rfl⟩

/-- An expression that begins with the word that opens declarations, as a name. -/
theorem comparison_of_declare_is_main_module :
    ∃ e m, parseExpression "declare eq import" .standard = .ok e ∧
      parseMainModule "declare eq import" .standard = .ok m ∧ m.module = .main ⟨none, []⟩ e := by
  obtain ⟨e, he, -⟩ := exists_ok_of_any (r := parseExpression "declare eq import" .standard) (fun _ => true)
    (by decide +kernel)
  obtain ⟨m, hm, hmodule⟩ := expression_is_main_module _ _ e he
  exact ⟨e, m, he, hm, hmodule⟩

end XQuerySyntax
