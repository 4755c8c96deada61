import XQuerySyntax.Proofs.Path.Front

/-! Steps are read as they are written. Each abbreviation leaves the parser of a step through a branch of its
own, and each branch answers with the axis and the test that stand for the abbreviation. -/

namespace XQuerySyntax

open XQuerySyntax.Parser Grammar Glimpse Scan

variable {f : Frame} {saved : List LexicalState} {text mid rest : List Char} {single : Parser Expr}
  {form : StepForm}

/-! ### Tokens -/

theorem takes_namespaceWildcard {space : List Char} {qualifier : String} (hspace : Trivia space)
    (hname : isName qualifier.toList) (rest : List Char) :
    Takes .expression (space ++ (qualifier.toList ++ ':' :: '*' :: rest)) Terminal.wildcardLocal rest
      [.name qualifier] := by
  have hs : Shows true [.name] (qualifier.toList ++ ':' :: '*' :: rest) :=
    ⟨_, _, rfl, hname, QName.endsName_colon _, trivial⟩
  have hitems : Terminal.wildcardLocal.items = [.capture .name, .char ':', .char '*'] := by rfl
  apply takes_of_accepts rfl rfl rfl rfl hspace (hs.settled rfl)
  have hstar : Accepts true [.char ':', .char '*'] true none (':' :: '*' :: rest) rest [] :=
    accepts_char (fun h => absurd h (by decide)) (accepts_char (fun h => absurd h (by decide)) (accepts_nil rest))
  have haccepts : Accepts true [.capture .name, .char ':', .char '*'] false none
      (qualifier.toList ++ ':' :: '*' :: rest) rest [.name (String.ofList qualifier.toList)] :=
    accepts_name hname (QName.endsName_colon _) hstar
  rw [String.ofList_toList] at haccepts
  rw [hitems]
  exact haccepts

theorem takes_localWildcard {space : List Char} {name : String} (hspace : Trivia space)
    (hname : isName name.toList) (hends : endsName rest) :
    Takes .expression (space ++ ('*' :: ':' :: (name.toList ++ rest))) Terminal.wildcardPrefix rest
      [.name name] := by
  have hs : Shows true [.char '*'] ('*' :: ':' :: (name.toList ++ rest)) := ⟨_, rfl, trivial⟩
  have hitems : Terminal.wildcardPrefix.items = [.char '*', .char ':', .capture .name] := by rfl
  apply takes_of_accepts rfl rfl rfl rfl hspace (hs.settled rfl)
  have hcapture : Accepts true [.capture .name] false none (name.toList ++ rest) rest
      [.name (String.ofList name.toList)] := accepts_name hname hends (accepts_nil rest)
  rw [String.ofList_toList] at hcapture
  rw [hitems]
  exact accepts_char (fun h => absurd h (by decide)) (accepts_char (fun h => absurd h (by decide)) hcapture)

theorem takes_axis {axis : Axis} (h : Laid [.mark axis.name, .mark "::"] text rest) :
    Takes .expression text Terminal.axis rest [.name axis.name] := by
  have hword := axis.isKeyword_name
  have hitems : Terminal.axis.items = .capture .name :: gapped ["::"] [] := by rfl
  cases h with
  | cons hspace hchars hapart htext =>
    obtain ⟨-, rfl⟩ := hchars
    rw [Piece.Apart, if_pos hword] at hapart
    have hname := isName_of_isKeyword hword
    have hs : Shows true [.name] (axis.name.toList ++ _) := ⟨_, _, rfl, hname, hapart, trivial⟩
    apply takes_of_accepts rfl rfl rfl rfl hspace (hs.settled rfl)
    have hcolons : Laid (marks ["::"]) _ rest := htext
    have haccepts : Accepts true (.capture .name :: gapped ["::"] []) false none (axis.name.toList ++ _) rest
        [.name (String.ofList axis.name.toList)] :=
      accepts_name hname hapart (hcolons.accepts (by decide) (fun _ => accepts_nil rest) true)
    rw [String.ofList_toList] at haccepts
    rw [hitems]
    exact haccepts

/-- A kind test looks like a call of its keyword. -/
theorem takes_call_of_kind {word : String} {pieces : List Piece} (hword : isKeyword word.toList)
    (h : Laid (.mark word :: .mark "(" :: pieces) text rest) :
    ∃ mid, Takes .expression text Terminal.functionCall mid [.qualifiedName ⟨none, word⟩] := by
  have hitems : Terminal.functionCall.items = .capture .qualifiedName :: gapped ["("] [] := by rfl
  cases h with
  | @cons _ _ space chars behind _ hspace hchars hapart htext =>
    obtain ⟨-, rfl⟩ := hchars
    rw [Piece.Apart, if_pos hword] at hapart
    have hname := isName_of_isKeyword hword
    have hs : Shows true [.name] (word.toList ++ behind) := ⟨_, _, rfl, hname, hapart, trivial⟩
    -- A colon would make the keyword the qualifier of a name.
    have hcolon : ∀ c ∈ behind.head?, c ≠ ':' := htext.begins_front.head_ne (by rfl) (by rfl) (by rfl)
    have hsplit : Laid (marks ["("] ++ pieces) behind rest := htext
    obtain ⟨mid, hparen, -⟩ := hsplit.append
    refine ⟨mid, takes_of_accepts rfl rfl rfl rfl hspace (hs.settled rfl) ?_⟩
    have hscan := scanQualifiedName_append hname hapart hcolon
    rw [String.ofList_toList] at hscan
    rw [hitems]
    exact accepts_qualifiedName hscan (hparen.accepts (by decide) (fun _ => accepts_nil mid) true)

/-- A bracket is taken by its rule whatever stands behind it. -/
theorem takes_bracket {space : List Char} {c : Char} {state : LexicalState} {r : Rule} (hcore : r.extension = .core)
    (hstate : r.states.contains state) (hstates : (state.skipsBlanks && state.skipsComments) = true)
    (hitems : r.items = [.char c]) (hc : c = '[' ∨ c = ']') (hspace : Trivia space) (rest : List Char) :
    Takes state (space ++ c :: rest) r rest [] := by
  obtain ⟨hblanks, hcomments⟩ := Bool.and_eq_true_iff.1 hstates
  have hs : Shows true [.char c] (c :: rest) := ⟨_, rfl, trivial⟩
  have hset : isSettled [.char c] := by
    rcases hc with rfl | rfl <;> rfl
  apply takes_of_accepts hcore hstate hblanks hcomments hspace (hs.settled hset)
  rw [hitems]
  refine accepts_char (fun hword => ?_) (accepts_nil rest)
  rcases hc with rfl | rfl <;> exact absurd hword (by decide)

/-! ### Tests -/

/-- The rules of wildcards do not take a name. -/
theorem wildcardRules_decline :
    ([Terminal.wildcardPrefix, Terminal.wildcardLocal, Terminal.wildcard].all fun r =>
      Scan.declinesEvery .expression r nameTestViews) = true := by
  rw [Scan.declinesEvery_eq]
  rfl

namespace StepTest

variable {test : StepTest}

/-- The default namespace of names on an axis. -/
def defaultNamespace? (c : StaticContext) (axis : Axis) : Option String :=
  if axis = .attribute ∨ axis = .namespaceAxis then none else c.elementNamespace?

theorem reads_nameTestNamespace (l : Place) (axis : Axis) :
    Reads f l (nameTestNamespace axis) (fun d => d = defaultNamespace? f.context axis) l := by
  unfold nameTestNamespace defaultNamespace?
  split
  · exact reads_pure rfl
  · exact reads_consult _

/-- A test of names is read with the namespace of its axis. -/
theorem reads_nameTest (hnames : ∀ t, test ≠ .kind t) (h : test.Lays text rest)
    (hrest : Begins behindStepViews rest) (axis : Axis) :
    Reads f (.before saved text) (nameTest (defaultNamespace? f.context axis))
      (fun o => ∃ n, o = some n ∧ NodeTest.name n = test.node f.context axis) (.behind saved rest) := by
  cases test with
  | name n =>
    -- The wildcards are tried first, and each of them needs a colon or a star where the name ends.
    have hwild := (begins_name h hrest).declines_rules wildcardRules_decline
    have hresolves (hn : QName.isLexical ⟨n.qualifier, n.localPart, none⟩) :
        QName.ResolvesIn f.context (defaultNamespace? f.context axis)
          ⟨n.qualifier, n.localPart, namespaceUri? f.context axis n⟩ := by
      refine ⟨hn, ?_⟩
      obtain ⟨_ | q, l⟩ := n <;> rfl
    have hlaid : Laid [.name ⟨n.qualifier, n.localPart, none⟩] text rest := h
    obtain ⟨mid, hmid, htake⟩ := hlaid.takes_name .expression Terminal.nameTest rfl (by rfl)
    cases hmid
    have hlexical : QName.isLexical ⟨n.qualifier, n.localPart, none⟩ := by
      cases hlaid with
      | cons _ hchars _ _ => exact hchars.1
    apply reads_ifEat_declined (hwild _ (by simp))
    apply reads_ifEat_declined (hwild _ (by simp))
    apply reads_ifEat_declined (hwild _ (by simp))
    apply reads_ifEat htake
    refine reads_bind reads_start fun offset _ => ?_
    refine reads_bind (reads_captured fun captures => captures.qualifiedName 0) fun q hq => ?_
    obtain rfl : q = n := hq
    refine reads_forget (reads_bind (reads_resolveName (hresolves hlexical) offset) fun resolved hn => ?_)
    rw [hn]
    exact reads_pure ⟨_, rfl, rfl⟩
  | any =>
    have hstar : Laid [.mark "*"] text rest := h
    obtain ⟨mid, hmid, htake⟩ := hstar.takes_mark .expression Terminal.wildcard rfl (by rfl)
    cases hmid
    apply reads_ifEat_declined (hstar.declines_front .expression Terminal.wildcardPrefix (by rfl))
    apply reads_ifEat_declined (hstar.declines_front .expression Terminal.wildcardLocal (by rfl))
    apply reads_ifEat htake
    exact reads_forget (reads_pure ⟨_, rfl, rfl⟩)
  | inNamespace q =>
    obtain ⟨space, hspace, hq, rfl⟩ := h
    have hs : Shows true [.name, .char ':', .char '*'] (q.toList ++ ':' :: '*' :: rest) :=
      ⟨_, _, rfl, hq, QName.endsName_colon _, _, rfl, _, rfl, trivial⟩
    -- The wildcard that begins with a star is tried before this one.
    have hbegins : Begins [[.name, .char ':', .char '*']] (space ++ (q.toList ++ ':' :: '*' :: rest)) :=
      ⟨space, _, _, rfl, hspace, List.mem_cons_self, hs⟩
    apply reads_ifEat_declined (hbegins.declinesEvery (by rfl))
    apply reads_ifEat (takes_namespaceWildcard hspace hq rest)
    refine reads_bind reads_start fun offset _ => ?_
    refine reads_bind (reads_captured fun captures => captures.name 0) fun q' hq' => ?_
    obtain rfl : q' = q := hq'
    refine reads_forget (reads_bind (reads_resolveQualifier q' offset) fun uri huri => ?_)
    rw [huri]
    exact reads_pure ⟨_, rfl, rfl⟩
  | localPart l =>
    obtain ⟨space, hspace, hl, hends, rfl⟩ := h
    apply reads_ifEat (takes_localWildcard hspace hl hends)
    refine reads_bind (reads_captured fun captures => captures.name 0) fun l' hl' => ?_
    obtain rfl : l' = l := hl'
    exact reads_forget (reads_pure ⟨_, rfl, rfl⟩)
  | kind t => exact absurd rfl (hnames t)

/-- A test of kinds is read by itself, and leaves the parser in a type. -/
theorem reads_kind {t : KindTest} (hw : t.WellWritten f.context) (h : (kind t).Lays text rest) :
    Reads f (.before saved text) kindTest (fun o => o = some t) (.inType saved rest) := by
  have hlaid : Laid (t.pieces ++ []) text rest := by
    rw [List.append_nil]
    exact h
  obtain ⟨mid, hmid, hread⟩ := reads_kindTest saved hw (List.mem_cons_self : LexicalState.expression ∈ _) hlaid
  cases hmid
  exact hread

theorem reads_noKind (hnames : ∀ t, test ≠ .kind t) (h : test.Lays text rest)
    (hrest : Begins behindStepViews rest) :
    Reads f (.before saved text) kindTest (fun o => o = none) (.before saved text) :=
  reads_kindTest_declined ((begins_names h hrest hnames).declines_rules kindRules_decline)

/-- Behind an axis a test is read as the axis has it. -/
theorem reads_nodeTest (saved : List LexicalState) (hw : test.WellWritten f.context) (h : test.Lays text rest)
    (hrest : Begins behindStepViews rest) (axis : Axis) :
    ∃ state, Reads f (.before saved text) (nodeTest axis) (fun t => t = test.node f.context axis)
      (.at rest ⟨state, saved⟩) := by
  by_cases hkind : ∃ t, test = .kind t
  · obtain ⟨t, rfl⟩ := hkind
    refine ⟨.kindTest, reads_bind (reads_kind hw h) fun o ho => ?_⟩
    rw [ho]
    exact reads_pure rfl
  · have hnames (t : KindTest) : test ≠ .kind t := fun heq => hkind ⟨t, heq⟩
    -- All kinds are tried before the name, with the namespace that names have on this axis.
    refine ⟨.operator, reads_bind (reads_noKind hnames h hrest) fun o ho => ?_⟩
    rw [ho]
    refine reads_bind (reads_nameTestNamespace _ axis) fun d hd => ?_
    rw [hd]
    refine reads_bind (reads_nameTest hnames h hrest axis) fun o ho => ?_
    obtain ⟨n, rfl, hn⟩ := ho
    exact reads_pure hn

end StepTest

/-! ### Forms of steps -/

/-- A kind test that stands alone has the axis of its kind. -/
theorem kindTestAxis_eq (t : KindTest) : kindTestAxis t = (StepTest.kind t).axis := by
  cases t <;> rfl

theorem Axis.ofName?_name (axis : Axis) : Axis.ofName? axis.name = some axis := by
  cases axis <;> rfl

/-- The keywords of kind tests are no names of functions. -/
theorem kindTable_reserved :
    (kindTable.all fun entry => isReservedFunctionName ⟨none, entry.1⟩) = true := by
  rfl

namespace StepForm

/-- What is tried where a step begins with no axis and no mark. -/
def bareStep (offset : Nat) : Parser (Option (Axis × NodeTest × Nat)) := do
  if let some test ← kindTest then
    return some (kindTestAxis test, .kind test, offset)
  if let some test ← nameTest (← nameTestNamespace .child) then
    return some (.child, .name test, offset)
  return none

theorem reads_bareStep {test : StepTest} (saved : List LexicalState) (hw : test.WellWritten f.context) (h : test.Lays text rest)
    (hrest : Begins behindStepViews rest) :
    ∃ state, ∀ offset, Reads f (.before saved text) (bareStep offset)
      (fun o => o = some (test.axis, test.node f.context test.axis, offset)) (.at rest ⟨state, saved⟩) := by
  by_cases hkind : ∃ t, test = .kind t
  · obtain ⟨t, rfl⟩ := hkind
    refine ⟨.kindTest, fun offset => reads_bind (StepTest.reads_kind hw h) fun o ho => ?_⟩
    rw [ho]
    refine reads_pure ?_
    rw [kindTestAxis_eq]
    rfl
  · have hnames (t : KindTest) : test ≠ .kind t := fun heq => hkind ⟨t, heq⟩
    -- Only a kind test that stands alone has an axis other than the one to children.
    have haxis : test.axis = .child := by
      cases test with
      | kind t => exact absurd rfl (hnames t)
      | _ => rfl
    refine ⟨.operator, fun offset => reads_bind (StepTest.reads_noKind hnames h hrest) fun o ho => ?_⟩
    rw [ho, haxis]
    refine reads_bind (StepTest.reads_nameTestNamespace _ .child) fun d hd => ?_
    rw [hd]
    refine reads_bind (StepTest.reads_nameTest hnames h hrest .child) fun o ho => ?_
    obtain ⟨n, rfl, hn⟩ := ho
    refine reads_pure ?_
    rw [hn]

/-- The axis and the test are read as they are written out. -/
theorem reads_stepTest (hw : form.meaning.2.WellWritten f.context) (h : form.Lays text rest)
    (hrest : Begins behindStepViews rest) :
    ∃ state, Reads f (.before saved text) stepTest
      (fun o => ∃ offset, o = some (form.meaning.1, form.meaning.2.node f.context form.meaning.1, offset))
      (.at rest ⟨state, saved⟩) := by
  have hbegins := begins_fronts h hrest
  cases form with
  | full axis test =>
    obtain ⟨mid, haxis, htest⟩ := h
    obtain ⟨state, hnode⟩ := StepTest.reads_nodeTest saved hw htest hrest axis
    refine ⟨state, reads_bind reads_nextOffset fun _ _ => reads_ifEat (takes_axis haxis) ?_⟩
    refine reads_bind reads_start fun offset _ => ?_
    refine reads_bind (reads_captured fun captures => captures.name 0) fun name hname => ?_
    obtain rfl : name = axis.name := hname
    rw [axis.ofName?_name]
    exact reads_forget (reads_bind hnode fun node hnode => reads_pure ⟨offset, by rw [hnode]; rfl⟩)
  | bare test =>
    have hviews : (bare test).fronts ⊆ testViews ++ kindViews := by
      intro view hview
      cases test <;> simp_all [fronts]
    -- The axis and the marks are tried in front of the test; nothing of theirs begins so.
    have hsteps := hbegins.weaken hviews
    have haxis := (hsteps.weaken (by simp)).declines_rules axisRule_declines
    have hat := (hsteps.weaken (by simp)).declines_rules attributeRule_declines
    have hdots := (hsteps.weaken (by simp [childViews])).declines_rules dotRules_decline
    obtain ⟨state, hbare⟩ := reads_bareStep saved hw h hrest
    refine ⟨state, reads_bind reads_nextOffset fun offset _ => ?_⟩
    apply reads_ifEat_declined (haxis _ List.mem_cons_self)
    apply reads_ifEat_declined (hat _ List.mem_cons_self)
    apply reads_ifEat_declined (hdots _ List.mem_cons_self)
    exact reads_weaken (hbare offset) fun o ho => ⟨offset, ho⟩
  | «attribute» test =>
    obtain ⟨mid, hat, htest⟩ := h
    have haxis := (hbegins.weaken (by simp [fronts])).declines_rules axisRule_declines
    obtain ⟨behind, hnil, htake⟩ := hat.takes_mark .expression Terminal.abbrevAttribute rfl (by rfl)
    cases hnil
    obtain ⟨state, hnode⟩ := StepTest.reads_nodeTest saved hw htest hrest .attribute
    refine ⟨state, reads_bind reads_nextOffset fun _ _ => ?_⟩
    apply reads_ifEat_declined (haxis _ List.mem_cons_self)
    apply reads_ifEat htake
    refine reads_bind reads_start fun offset _ => ?_
    exact reads_forget (reads_bind hnode fun node hnode => reads_pure ⟨offset, by rw [hnode]; rfl⟩)
  | parent =>
    have hlaid : Laid [.mark ".."] text rest := h
    have haxis := (hbegins.weaken (by simp [fronts])).declines_rules axisRule_declines
    have hat := (hbegins.weaken (by simp [fronts])).declines_rules attributeRule_declines
    obtain ⟨behind, hnil, htake⟩ := hlaid.takes_mark .expression Terminal.parentStep rfl (by rfl)
    cases hnil
    refine ⟨.operator, reads_bind reads_nextOffset fun _ _ => ?_⟩
    apply reads_ifEat_declined (haxis _ List.mem_cons_self)
    apply reads_ifEat_declined (hat _ List.mem_cons_self)
    apply reads_ifEat htake
    exact reads_forget (reads_bind reads_start fun offset _ => reads_pure ⟨offset, rfl⟩)

/-- Of steps only a kind test looks like a call, and its keyword is no name of a function. -/
theorem reads_functionCall_step {single : Parser Expr} (h : form.Lays text rest)
    (hrest : Begins behindStepViews rest) :
    Reads f (.before saved text) (functionCall? single) (fun o => o = none) (.before saved text) := by
  have hbegins := begins_fronts h hrest
  -- The rule of calls takes the keyword and the parenthesis of a kind test, which is why the keywords are
  -- reserved.
  by_cases hkind : ∃ t, form = bare (.kind t)
  · obtain ⟨t, rfl⟩ := hkind
    have htest : Laid t.pieces text rest := h
    obtain ⟨hmem, args, hpieces⟩ := StepTest.pieces_kind t
    obtain ⟨⟨word, r⟩, hentry, hword⟩ := List.mem_map.1 hmem
    obtain rfl : word = t.keyword := hword
    have hphrase := List.all_eq_true.1 (List.all_eq_true.1 kindTable_phrases _ hentry) .expression (by decide)
    simp only [Bool.and_eq_true] at hphrase
    have hcall : Laid (.mark t.keyword :: .mark "(" :: (args ++ [Piece.mark ")"])) text rest := by
      rwa [hpieces] at htest
    obtain ⟨mid, htake⟩ := takes_call_of_kind hphrase.1.2 hcall
    apply reads_unlessPeek htake
    refine reads_bind (reads_captured fun captures => captures.qualifiedName 0) fun q hq => ?_
    obtain rfl : q = ⟨none, t.keyword⟩ := hq
    rw [if_pos (List.all_eq_true.1 kindTable_reserved _ hentry)]
    exact reads_forget (reads_pure rfl)
  · have hviews : form.fronts ⊆ testViews ++ axisViews ++ [Piece.front (.mark "@"), Piece.front (.mark "..")] := by
      intro view hview
      unfold fronts at hview
      split at hview <;> simp_all
    have hcall := (hbegins.weaken hviews).declines_rules callRule_declines
    exact reads_unlessPeek_declined (hcall _ List.mem_cons_self) (reads_pure rfl)

end StepForm

namespace StepForm

/-- No step is a primary expression. -/
theorem reads_primary_step (h : form.Lays text rest) (hrest : Begins behindStepViews rest) :
    Reads f (.before saved text) (primary single) (fun o => o = none) (.before saved text) := by
  have hrules := (begins_step h hrest).declines_rules operandRules_decline
  have hfront : ∀ r ∈ constructorRules ++ [Terminal.orderedBlock, Terminal.unorderedBlock,
      Terminal.annotationName, Terminal.inlineFunction], Declines .expression text r := by
    intro r hr
    refine hrules r ?_
    simp only [operandRules, List.mem_append] at hr ⊢
    rcases hr with hr | hr
    · exact .inl (.inr hr)
    · exact .inr (List.mem_append_left [Terminal.namedFunctionRef] hr)
  -- Two dots are seen before a dot is tried, and so the step to the parent is no context item.
  obtain ⟨dots, hdots, hitem⟩ : ∃ dots, Reads f (.before saved text) (peek Terminal.parentStep)
      (fun b => b = dots) (.before saved text) ∧
        (dots = false → Declines .expression text Terminal.contextItem) := by
    by_cases hform : form = parent
    · subst hform
      have hlaid : Laid [.mark ".."] text rest := h
      obtain ⟨behind, -, htake⟩ := hlaid.takes_mark .expression Terminal.parentStep rfl (by rfl)
      exact ⟨true, reads_leave (reads_peek htake), fun h => nomatch h⟩
    · have hdecline := ((begins_fronts h hrest).weaken (fronts_subset_child hform)).declines_rules dotRules_decline
      exact ⟨false, reads_peek_declined (hdecline _ (by simp)), fun _ => hdecline _ (by simp)⟩
  have hliteral : ∀ r ∈ literalRules, Declines .expression text r :=
    fun r hr => hrules r (by simp [operandRules, hr])
  refine (passes_primary_of_dots hliteral hdots hitem hfront).reads ?_
  exact reads_ifEat_declined (hrules Terminal.namedFunctionRef (by simp [operandRules]))
    (reads_functionCall_step h hrest)

end StepForm

/-! ### Predicates -/

/-- What may come behind a step and its predicates. -/
def behindPredicatesViews : List (List Glimpse) := closingViews ++ [[Glimpse.char '/']]

theorem predicateOpen_declines :
    ([Terminal.predicateOpen].all fun r => Scan.declinesEvery .operator r behindPredicatesViews) = true := by
  rw [Scan.declinesEvery_eq]
  rfl

/-- The parser reads the text of a predicate up to space in front of its closing bracket. -/
def ReadsPredicate (f : Frame) (single : Parser Expr) (predicate : List Char) (tree : Expr) : Prop :=
  ∀ (saved : List LexicalState) (rest : List Char), (predicate ++ ']' :: rest).length ≤ f.size →
    ∃ space, Trivia space ∧ Reads f (.before saved (predicate ++ ']' :: rest)) (expr single)
      (fun e => e.placeless = tree) (.behind saved (space ++ ']' :: rest))

namespace BracketsLay

variable {predicates : List (List Char)} {meaning : List Char → Expr}

theorem begins (h : BracketsLay predicates text rest) (hrest : Begins behindPredicatesViews rest) :
    Begins behindStepViews text := by
  cases h with
  | nil => exact hrest.weaken (by simp [behindPredicatesViews, behindStepViews])
  | cons hspace _ =>
    exact ⟨_, _, [.char '['], rfl, hspace, by simp [behindStepViews], _, rfl, trivial⟩

/-- The induction is on the predicates, each of which needs one more round of the loop. -/
theorem reads_within (h : BracketsLay predicates text rest) (hrest : Begins behindPredicatesViews rest)
    (hreads : ∀ p ∈ predicates, ReadsPredicate f single p (meaning p)) (hsize : text.length ≤ f.size)
    (k : Nat) (hk : text.length < k) :
    Reads f (.behind saved text) (manyWithin (whenEats Terminal.predicateOpen (predicate single)) k)
      (fun es => es.map Expr.placeless = predicates.map meaning) (.behind saved rest) := by
  induction h generalizing k with
  | nil rest =>
    obtain ⟨k, rfl⟩ := Nat.exists_eq_add_of_lt (Nat.zero_lt_of_lt hk)
    have hdecline : Declines .operator rest Terminal.predicateOpen :=
      hrest.declines_rules predicateOpen_declines _ List.mem_cons_self
    have hnone : Reads f (.behind saved rest) (whenEats Terminal.predicateOpen (predicate single))
        (fun e => e = none) (.behind saved rest) := reads_whenEats_declined hdecline
    refine reads_weaken (reads_manyWithin_nil hnone) fun es hes => ?_
    rw [hes]
    rfl
  | @cons p space text rest predicates hspace htext ih =>
    simp only [List.length_append, List.length_cons] at hsize hk
    obtain ⟨k, rfl⟩ := Nat.exists_eq_add_of_lt (Nat.zero_lt_of_lt hk)
    have hopen : Takes .operator (space ++ '[' :: (p ++ ']' :: text)) Terminal.predicateOpen (p ++ ']' :: text) [] :=
      takes_bracket rfl rfl rfl rfl (.inl rfl) hspace _
    -- What is read of the predicate may leave space in front of the closing bracket.
    obtain ⟨gap, hgap, hinside⟩ := hreads p List.mem_cons_self saved text (by simp; omega)
    have hclose : Takes .operator (gap ++ ']' :: text) Terminal.predicateClose text [] :=
      takes_bracket rfl rfl rfl rfl (.inr rfl) hgap _
    have hpredicate : Reads f (.before saved (p ++ ']' :: text)) (predicate single)
        (fun e => e.placeless = meaning p) (.behind saved text) := by
      refine reads_bind hinside fun e he => ?_
      refine reads_bind (reads_expect hclose) fun _ _ => ?_
      exact reads_forget (reads_pure he)
    have hmore := ih hrest (fun q hq => hreads q (List.mem_cons_of_mem _ hq)) (by omega) (0 + k) (by omega)
    refine reads_weaken (reads_manyWithin_cons (reads_whenEats hopen (reads_forget hpredicate)) hmore) ?_
    intro es hes
    obtain ⟨e, es, rfl, he, hes⟩ := hes
    rw [List.map_cons, List.map_cons, he, hes]

theorem reads_predicates (h : BracketsLay predicates text rest) (hrest : Begins behindPredicatesViews rest)
    (hreads : ∀ p ∈ predicates, ReadsPredicate f single p (meaning p)) (hsize : text.length ≤ f.size) :
    Reads f (.behind saved text) (Grammar.predicates single)
      (fun es => es.map Expr.placeless = predicates.map meaning) (.behind saved rest) :=
  reads_many (h.reads_within hrest hreads hsize (f.size + 1) (by omega))

end BracketsLay

/-! ### Steps -/

namespace WrittenStep

variable {s : WrittenStep} {meaning : List Char → Expr} {c : StaticContext} {module : ModuleId} {e : Expr}

/-- The step in a tree, wherever it stands. -/
def Denotes (c : StaticContext) (module : ModuleId) (meaning : List Char → Expr) (s : WrittenStep)
    (e : Expr) : Prop :=
  ∃ offset ps, e = .mk (.step s.form.meaning.1 (s.form.meaning.2.node c s.form.meaning.1) ps) offset module ∧
    ps.map Expr.placeless = s.predicates.map meaning

theorem Denotes.placeless_eq (h : s.Denotes c module meaning e) : e.placeless = s.tree c module meaning := by
  obtain ⟨offset, ps, rfl, hps⟩ := h
  rw [Expr.placeless, Expr.moved_mk, tree, ← hps]
  rfl

theorem begins (h : s.Lays text rest) (hrest : Begins behindPredicatesViews rest) : Begins stepViews text := by
  obtain ⟨mid, hform, hbrackets⟩ := h
  exact StepForm.begins_step hform (hbrackets.begins hrest)

/-- The names of the step resolve, and its predicates are read. -/
structure Fits (f : Frame) (single : Parser Expr) (meaning : List Char → Expr) (s : WrittenStep) : Prop where
  test : s.form.meaning.2.WellWritten f.context
  predicates : ∀ p ∈ s.predicates, ReadsPredicate f single p (meaning p)

theorem reads_axisStep (hs : s.Fits f single meaning) (h : s.Lays text rest)
    (hrest : Begins behindPredicatesViews rest) (hsize : text.length ≤ f.size) :
    Reads f (.before saved text) (axisStep single)
      (fun o => ∃ e, o = some e ∧ s.Denotes f.context f.module meaning e) (.behind saved rest) := by
  obtain ⟨mid, hform, hbrackets⟩ := h
  obtain ⟨state, htest⟩ := StepForm.reads_stepTest hs.test hform (hbrackets.begins hrest)
  have hmid := StepForm.length_le hform
  refine reads_bind htest fun o ho => ?_
  obtain ⟨offset, rfl⟩ := ho
  -- A kind test leaves the parser among types, whatever the form; the step goes back to operators.
  refine reads_bind (reads_goto .operator) fun _ _ => ?_
  refine reads_bind (hbrackets.reads_predicates hrest hs.predicates (by omega)) fun ps hps => ?_
  refine reads_bind (reads_node _ offset) fun e he => ?_
  exact reads_pure ⟨e, rfl, offset, ps, he, hps⟩

/-- No step is a primary expression, and so it is read as one with an axis. -/
theorem reads_stepExpr (hs : s.Fits f single meaning) (h : s.Lays text rest)
    (hrest : Begins behindPredicatesViews rest) (hsize : text.length ≤ f.size) :
    Reads f (.before saved text) (stepExpr single)
      (fun o => ∃ e, o = some e ∧ s.Denotes f.context f.module meaning e) (.behind saved rest) := by
  have hprimary : Reads f (.before saved text) (primary single) (fun o => o = none) (.before saved text) := by
    obtain ⟨mid, hform, hbrackets⟩ := h
    exact StepForm.reads_primary_step hform (hbrackets.begins hrest)
  refine reads_bind hprimary fun o ho => ?_
  rw [ho]
  exact reads_axisStep hs h hrest hsize

theorem reads_requiredStep (hs : s.Fits f single meaning) (h : s.Lays text rest)
    (hrest : Begins behindPredicatesViews rest) (hsize : text.length ≤ f.size) :
    Reads f (.before saved text) (requiredStep single) (s.Denotes f.context f.module meaning)
      (.behind saved rest) := by
  refine reads_bind (reads_stepExpr hs h hrest hsize) fun o ho => ?_
  obtain ⟨e, rfl, he⟩ := ho
  exact reads_pure he

end WrittenStep

end XQuerySyntax
