import XQuerySyntax.Proofs.RoundTrip.MarkupElement

/-! Every element that is serialized is parsed back, if boundary space is preserved and as many
constructs may be open at a time as it needs. -/

namespace XQuerySyntax

open XQuerySyntax.Parser Grammar Terminal

namespace MarkupTree

variable {f : Frame} {saved : List LexicalState} {text rest : List Char} {t : MarkupTree} {n : Nat}

/-- The parsed expression is the element. -/
def DenotesExpr (t : MarkupTree) (f : Frame) (e : Expr) : Prop :=
  t.Denotes f.context.elementNamespace? f.module (.node e)

/-- No element is a step. -/
theorem not_step (helement : t.isElement) {e : Expr} (h : t.DenotesExpr f e) (axis : Axis)
    (test : NodeTest) (predicates : List Expr) : e.kind ≠ .step axis test predicates := by
  intro hkind
  cases t with
  | emptyElement n attributes =>
    obtain ⟨offset, parsed, he, -⟩ := h
    cases he
    cases hkind
  | element n attributes content =>
    obtain ⟨offset, parsed, parts, he, -⟩ := h
    cases he
    cases hkind
  | _ => cases helement

/-- An element is a primary expression. -/
theorem reads_primary (helement : t.isElement) (hwf : t.WellFormed) (hn : 1 ≤ n)
    (hdepth : f.depth + t.levels ≤ f.maxDepth) (hspace : f.context.boundarySpace = .preserve)
    (hsize : text.length ≤ f.size) (htext : t.Writes text rest)
    (hdecline : ∀ r ∈ literalRules ++ [parentStep, contextItem], Declines .expression text r) :
    Reads f (.before saved text) (primary (singleWithin n))
      (fun o => ∃ e, o = some e ∧ t.DenotesExpr f e) (.behind saved rest) := by
  have hread := readsElement helement hwf .operator saved hn hdepth hspace hsize
    (Nat.le_succ_of_le hsize) htext
  obtain ⟨name, tag, rfl, hends, hread⟩ := hread
  have htake : Takes .expression ('<' :: (name.chars ++ tag)) elementOpen tag
      [.qualifiedName ⟨none, name.text⟩] := takes_startTag hends (by decide)
  have hconstructor : Reads f (.before saved ('<' :: (name.chars ++ tag)))
      (directConstructor (singleWithin n)) (fun o => ∃ e, o = some e ∧ t.DenotesExpr f e)
      (.behind saved rest) := by
    apply reads_ifEat htake
    refine reads_bind reads_start fun offset _ => ?_
    refine reads_bind (reads_dirElement (hread offset)) fun e he => ?_
    exact reads_pure ⟨e, rfl, he⟩
  have hnumber := hdecline numericLiteral (by simp [literalRules])
  have hstring := hdecline stringLiteral (by simp [literalRules])
  refine reads_bind (reads_literal_declined hnumber hstring) fun o ho => ?_
  rw [ho]
  apply reads_ifPeek_declined (hdecline variableReference (by simp [literalRules]))
  apply reads_ifEat_declined (hdecline lparen (by simp [literalRules]))
  refine reads_bind (reads_peek_declined (hdecline parentStep (by simp))) fun dots hdots => ?_
  rw [hdots]
  apply reads_ifEat_declined (hdecline contextItem (by simp))
  refine reads_bind hconstructor fun o ho => ?_
  obtain ⟨e, rfl, he⟩ := ho
  exact reads_pure ⟨e, rfl, he⟩

/-- An element that is all of the text is an expression. -/
theorem reads_serialized (helement : t.isElement) (hwf : t.WellFormed)
    (hdepth : f.depth + t.levels + 1 ≤ f.maxDepth) (hspace : f.context.boundarySpace = .preserve)
    (hsize : text.length ≤ f.size) (htext : t.Serializes text) :
    Reads f (.before saved text) (expr exprSingle) (t.DenotesExpr f) (.behind saved []) := by
  have hend : Behind (Layer.sequence.rank + 1) [] := behind_space .nil
  have hfirst : ∃ rest, text = '<' :: rest := by
    cases t with
    | emptyElement n attributes =>
      obtain ⟨tag, rfl, -⟩ := htext
      exact ⟨_, rfl⟩
    | element n attributes content =>
      obtain ⟨tag, inside, rfl, -⟩ := htext
      exact ⟨_, rfl⟩
    | _ => cases helement
  obtain ⟨rest, hrest⟩ := hfirst
  have hdecline : ∀ r ∈ keywordRules ++ signRules ++ valueRules ++ literalRules ++
      [parentStep, contextItem], Declines .expression text r := by
    intro r hr
    rw [hrest]
    exact declines_char (List.all_eq_true.1 elementView_decline r hr) trivial
  -- Inside a single expression one construct more is open.
  let inner : Frame := { f with depth := f.depth + 1 }
  have hpos : 1 ≤ f.size := by
    rw [hrest] at hsize
    exact Nat.le_trans (Nat.succ_le_succ (Nat.zero_le _)) hsize
  have hprimary : Reads inner (.before saved text) (primary (singleWithin f.size))
      (fun o => ∃ e, o = some e ∧ t.DenotesExpr f e) (.behind saved []) := by
    have hdepth' : inner.depth + t.levels ≤ inner.maxDepth := by
      change f.depth + 1 + t.levels ≤ f.maxDepth
      omega
    apply reads_primary helement hwf hpos hdepth' hspace hsize htext
    intro r hr
    rcases List.mem_append.1 hr with hr | hr
    · exact hdecline r (by simp [hr])
    · exact hdecline r (List.mem_append_right _ hr)
  have hvalue : Reads inner (.before saved text) (Layer.primary.parser f.size) (t.DenotesExpr f)
      (.behind saved []) := by
    refine reads_valueExpr_primary ?_ hprimary ?_ ?_
    · exact fun r hr => hdecline r (by simp [hr])
    · exact fun e he => not_step helement he
    · exact hend.declines (by decide)
  have hor : Reads inner (.before saved text) (Layer.or.parser f.size) (t.DenotesExpr f)
      (.behind saved []) := by
    have hsigns : ∀ r ∈ signRules, Declines .expression text r :=
      fun r hr => hdecline r (by simp [hr])
    exact Layer.reads_looser hend (by decide) (by decide) (Nat.le_refl _) (fun _ => hsigns) hvalue
  have hsingle : Reads f (.before saved text) (singleWithin (f.size + 1)) (t.DenotesExpr f)
      (.behind saved []) := by
    apply reads_nested (by omega)
    exact reads_singleOf (fun r hr => hdecline r (by simp [hr])) hor
  exact reads_expr (OperatorTree.reads_exprSingle hsingle)
    (hend.declines (Nat.lt_succ_self _) comma List.mem_cons_self)

end MarkupTree

/-- Every element that is serialized is parsed back, up to where its nodes begin, whatever extensions
are on, if boundary space is preserved and as many constructs may be open at a time as the element and
the expression it is need. -/
theorem serialized_element_is_parsed_back (t : MarkupTree) (text : String) (config : Config)
    (helement : t.isElement) (hwf : t.WellFormed) (htext : t.Serializes text.toList)
    (hspace : config.boundarySpace = .preserve) (hdepth : t.levels + 1 ≤ config.maxDepth) :
    ∃ e, parseExpression text config = .ok e ∧
      t.Denotes (StaticContext.ofConfig config).elementNamespace?
        (.ofLocation? config.sourceUri) (.node e) := by
  have hsize : text.toList.length ≤ (wholeFrame text config).size := length_le_size text config
  have hdepth' : (wholeFrame text config).depth + t.levels + 1 ≤ (wholeFrame text config).maxDepth := by
    change 0 + t.levels + 1 ≤ config.maxDepth
    omega
  exact parseExpression_of_reads .nil
    (MarkupTree.reads_serialized helement hwf hdepth' hspace hsize htext)

/-- The tree of `<a b='{{'>x &lt;{$z}<c/></a>`: a brace in a value, and text before a variable. -/
def MarkupTree.mixedContent : MarkupTree :=
  .element ⟨['a'], by decide⟩
    [⟨⟨['b'], by decide⟩, by decide, [.text ['\x7b'] (by decide)], trivial⟩]
    [.text ['x', ' ', '<'] (by decide), .enclosed ⟨['z'], by decide⟩,
      .emptyElement ⟨['c'], by decide⟩ []]

/-- The usual configuration, but blanks between markup are kept. -/
def Config.preserving : Config := { Config.standard with boundarySpace := .preserve }

theorem mixed_content_is_parsed_back :
    MarkupTree.mixedContent.isElement ∧ MarkupTree.mixedContent.WellFormed ∧
      MarkupTree.mixedContent.Serializes "<a b='\x7b\x7b'>x &lt;\x7b$z\x7d<c/></a>".toList ∧
      Config.preserving.boundarySpace = .preserve ∧
      MarkupTree.mixedContent.levels + 1 ≤ Config.preserving.maxDepth ∧
      ∃ e, parseExpression "<a b='\x7b\x7b'>x &lt;\x7b$z\x7d<c/></a>" .preserving = .ok e ∧
        MarkupTree.mixedContent.Denotes (StaticContext.ofConfig .preserving).elementNamespace?
          (.ofLocation? none) (.node e) := by
  have hapart : Apart MarkupTree.isText [.text ['x', ' ', '<'] (by decide),
      .enclosed ⟨['z'], by decide⟩, .emptyElement ⟨['c'], by decide⟩ []] :=
    ⟨by decide, by decide, trivial⟩
  have hwf : MarkupTree.mixedContent.WellFormed := ⟨hapart, trivial, trivial, trivial, trivial⟩
  have hvalue : MarkupBody (some '\'') ['\x7b'] ['\x7b', '\x7b'] :=
    .doubled '\x7b' (.inl rfl) .nil
  have hreference : Reference '<' ['&', 'l', 't', ';'] := by
    have hname : ("lt", '<') ∈ namedReferences := by decide
    have htext : '&' :: ("lt".toList ++ [';']) = ['&', 'l', 't', ';'] := by rfl
    rw [← htext]
    exact .named hname
  have hbody : MarkupBody none ['x', ' ', '<'] ['x', ' ', '&', 'l', 't', ';'] :=
    .literal 'x' (by decide) (by decide) (.literal ' ' (by decide) (by decide)
      (.reference '<' hreference .nil))
  let inside : List Char :=
    ['x', ' ', '&', 'l', 't', ';'] ++
      ['\x7b', '$', 'z', '\x7d', '<', 'c', '/', '>', '<', '/', 'a', '>']
  have hattribute : MarkupAttribute.WritesAll
      [⟨⟨['b'], by decide⟩, by decide, [.text ['\x7b'] (by decide)], trivial⟩]
      ([' ', 'b', '=', '\'', '\x7b', '\x7b', '\'', '>'] ++ inside) ('>' :: inside) :=
    ⟨_, ⟨[' '], '\'', _, by decide, List.forall_mem_singleton.2 (by decide), .inr rfl, rfl, _,
      ⟨_, hvalue, rfl⟩, rfl⟩, rfl⟩
  have hcontent : MarkupTree.WritesAll [.text ['x', ' ', '<'] (by decide),
      .enclosed ⟨['z'], by decide⟩, .emptyElement ⟨['c'], by decide⟩ []]
      inside ['<', '/', 'a', '>'] :=
    ⟨_, ⟨_, hbody, rfl⟩, _, rfl, _, ⟨_, rfl, rfl⟩, rfl⟩
  have hserializes : MarkupTree.mixedContent.Serializes
      "<a b='\x7b\x7b'>x &lt;\x7b$z\x7d<c/></a>".toList := by
    have htext : "<a b='\x7b\x7b'>x &lt;\x7b$z\x7d<c/></a>".toList =
        '<' :: 'a' :: ([' ', 'b', '=', '\'', '\x7b', '\x7b', '\'', '>'] ++ inside) := by
      rfl
    rw [htext]
    exact ⟨_, _, rfl, hattribute, hcontent⟩
  have hdepth : MarkupTree.mixedContent.levels + 1 ≤ Config.preserving.maxDepth := by decide
  exact ⟨rfl, hwf, hserializes, rfl, hdepth,
    serialized_element_is_parsed_back _ _ _ rfl hwf hserializes rfl hdepth⟩

end XQuerySyntax
