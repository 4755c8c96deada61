import XQuerySyntax.Proofs.Comparison.Altered
import XQuerySyntax.Proofs.Comparison.Module
import XQuerySyntax.Proofs.Tree.Parse

/-! What comparisons say of whole parses. A higher limit on nesting changes the outcome only if the lower one
has stopped the parse; an extension that is switched off or not used leaves no trace; and space in front of a
text moves the tree. -/

/-! ### The limit on nesting

A higher limit changes the outcome of a parse only if the lower one has stopped it: what is open at the same
time counts, and what has been closed does not. -/

namespace XQuerySyntax

open Grammar Comparison

variable {α : Type} {S : Comparison} {text : String} {config config' : Config} {d d' : Nat}

/-- The outcomes with a lower and with a higher limit are the same, or the lower limit has stopped the
parse. -/
def Outlasts (d : Nat) (low high : Except ParseError α) : Prop :=
  high = low ∨ ∃ error offset, low = .error error ∧ error.diagnostic = .nesting d offset

/-- A parse with a higher limit beside a parse with a lower one. -/
def raised (d : Nat) : Comparison := { same .core True (fun _ => rfl) d with raised := True }

instance (d : Nat) : (raised d).Exact := ⟨trivial⟩

theorem near_raised (config : Config) (text : String) (h : d ≤ d') :
    (raised d).Near .behind (.ofText text { config with maxDepth := d })
      (.ofText text { config with maxDepth := d' }) where
  scan := ⟨rfl, .inl rfl⟩
  context := .of_eq rfl
  recorded := .refl_nil rfl
  module := rfl
  depth := rfl
  limit := rfl
  limit_le := h
  limit_eq hno := (hno trivial).elim
  libraryNamespace _ := rfl
  declaredPrefixes _ := rfl

theorem parseError_eq {stop : Stop} {s s' : ParserState} (hrecorded : s'.recorded = s.recorded)
    (hmodule : s'.module = s.module) : parseError stop s' = parseError stop s := by
  rw [parseError, parseError, hrecorded, hmodule]

/-- In a strict comparison the second run stops as the first one does, unless that has met its limit. -/
theorem parseExpression_stops [S.Exact] (hs : S.strict)
    (h : S.Near .behind (.ofText text config) (.ofText text config')) {err : ParseError}
    (hr : parseExpression text config = .error err) :
    (∃ offset, err.diagnostic = .nesting S.limit offset) ∨ parseExpression text config' = .error err := by
  have hagree := (pairs_expressionUnit .behind).follows not_false _ _ h
  unfold parseExpression at hr ⊢
  cases hunit : expressionUnit (.ofText text config) <;> rw [hunit] at hr hagree <;> cases hr
  rcases hagree hs with ⟨-, offset, rfl⟩ | ⟨s', hunit', hrecorded, hmodule⟩
  · exact .inl ⟨offset, rfl⟩
  · rw [hunit']
    exact .inr (congrArg Except.error (parseError_eq (hrecorded.eq_of_still (S.still_of_strict Exact.exact hs)) hmodule))

theorem parseModule_stops [S.Exact] (kind : Option ModuleKind) (hs : S.strict)
    (h : S.Near .behind (.ofText text config) (.ofText text config'))
    (hlocation : config'.sourceUri = config.sourceUri) {err : ParseError}
    (hr : parseModule kind text config = .error err) :
    (∃ offset, err.diagnostic = .nesting S.limit offset) ∨ parseModule kind text config' = .error err := by
  have hagree := (agree_moduleUnit (S.still_of_strict Exact.exact hs) (none : Option (Importer Unit)) kind
    config.sourceUri.isSome).follows not_false (.ofText text config, ()) (.ofText text config', ()) ⟨h, rfl⟩
  unfold parseModule parseModuleWith at hr ⊢
  rw [hlocation]
  cases hunit : moduleUnit none kind config.sourceUri.isSome (.ofText text config, ()) <;>
    rw [hunit] at hr hagree <;> cases hr
  rcases hagree hs with ⟨-, offset, rfl⟩ | ⟨s', hunit', hrecorded, hmodule⟩
  · exact .inl ⟨offset, rfl⟩
  · rw [hunit']
    exact .inr (congrArg Except.error (parseError_eq (hrecorded.eq_of_still (S.still_of_strict Exact.exact hs)) hmodule))

theorem outlasts_parseExpression (config : Config) (text : String) (h : d ≤ d') :
    Outlasts d (parseExpression text { config with maxDepth := d })
      (parseExpression text { config with maxDepth := d' }) := by
  have hnear := near_raised config text h
  cases hr : parseExpression text { config with maxDepth := d } with
  | ok e => exact .inl ((parseExpression_follows trivial hnear hr).resolve_left fun hon => hon.2 trivial).2
  | error err =>
    rcases parseExpression_stops trivial hnear hr with ⟨offset, hnesting⟩ | hsame
    · exact .inr ⟨err, offset, rfl, hnesting⟩
    · exact .inl hsame

theorem outlasts_parseModule (kind : Option ModuleKind) (config : Config) (text : String) (h : d ≤ d') :
    Outlasts d (parseModule kind text { config with maxDepth := d })
      (parseModule kind text { config with maxDepth := d' }) := by
  have hnear := near_raised config text h
  cases hr : parseModule kind text { config with maxDepth := d } with
  | ok m =>
    have hfollows := parseModuleWith_follows (none : Option (Importer Unit)) kind () trivial hnear rfl
      (Prod.ext hr rfl)
    exact .inl (congrArg Prod.fst (hfollows.resolve_left fun hlost => hlost.1.2 trivial).2)
  | error err =>
    rcases parseModule_stops kind trivial hnear rfl hr with ⟨offset, hnesting⟩ | hsame
    · exact .inr ⟨err, offset, rfl, hnesting⟩
    · exact .inl hsame

/-- A construct that has been read counts no more. -/
theorem depth_of_exprSingle {o : Origin} {s s₁ : ParserState} {e : Expr}
    (hs : s.Within o d fun _ => True) (h : exprSingle s = .ok e s₁) : s₁.depth = d := by
  have hends := yields_exprSingle d ⟨fun _ => True, fun _ _ => trivial⟩ s hs
  rw [h] at hends
  exact hends.depth

/-- Raising the limit on nesting keeps the outcome of a parse, be it a tree with its context and what
has been recorded or an error, unless the lower limit has stopped the parse. Constructs that follow one
another do not add up: behind an expression the depth is the one before it. -/
theorem raising_limit_keeps_outcome :
    (∀ (config : Config) (d d' : Nat) (text : String), d ≤ d' →
      Outlasts d (parseExpression text { config with maxDepth := d })
        (parseExpression text { config with maxDepth := d' }) ∧
      ∀ kind, Outlasts d (parseModule kind text { config with maxDepth := d })
        (parseModule kind text { config with maxDepth := d' })) ∧
    ∀ (o : Origin) (d : Nat) (s s₁ : ParserState) (e : Expr), s.Within o d (fun _ => True) →
      exprSingle s = .ok e s₁ → s₁.depth = d :=
  ⟨fun config _ _ text h => ⟨outlasts_parseExpression config text h, fun kind =>
    outlasts_parseModule kind config text h⟩, fun _ _ _ _ _ hs h => depth_of_exprSingle hs h⟩

/-- What comes of a sum in parentheses at its limit, and of a sum and a query with and without a comment in
front. -/
theorem compared_expressions :
    (parseExpression "(1) + (2)" { Config.standard with maxDepth := 2 }).toOption.any (fun _ => true) ∧
      (parseExpression "1 + $x" .standard).toOption.any (fun _ => true) ∧
      (parseExpression ("(: a (: b :) :)" ++ "1 + $x") .standard).toOption.any (fun e => e.offset == 17) ∧
      (parseExpression "for $x in 1 return 2" .standard).toOption.any (fun _ => true) ∧
      (parseExpression ("(: c :)" ++ "for $x in 1 return 2") .standard).toOption.any (fun e => e.offset == 0) := by
  decide +kernel

/-- Two levels are enough for parentheses, also with two of them behind one another; one is not. -/
theorem parentheses_parse_alike_above_two :
    2 ≤ 200 ∧ (∃ e, parseExpression "(1) + (2)" { Config.standard with maxDepth := 2 } = .ok e ∧
      parseExpression "(1) + (2)" { Config.standard with maxDepth := 200 } = .ok e) := by
  obtain ⟨e, he, -⟩ := exists_ok_of_any _ compared_expressions.1
  have hlevels : 2 ≤ 200 := by decide
  refine ⟨hlevels, e, he, ?_⟩
  rcases (raising_limit_keeps_outcome.1 .standard 2 200 "(1) + (2)" hlevels).1 with
    hsame | ⟨error, offset, hstopped, -⟩
  · rw [hsame, he]
  · rw [he] at hstopped
    cases hstopped

end XQuerySyntax

/-! ### Extensions that are switched off

A parse beside itself may take such an extension for the one that the second run lacks; since neither run
has it, no answer shows it. -/

namespace XQuerySyntax

open Grammar Comparison

variable {text : String} {config : Config} {x : Extension}

theorem core_of_false (x : Extension) : False → x = .core := False.elim

/-- A parse beside itself without an extension that is switched off. -/
def barring (x : Extension) (limit : Nat) : Comparison := same x False (core_of_false x) limit

instance (x : Extension) (limit : Nat) : (barring x limit).Exact :=
  inferInstanceAs (same x False (core_of_false x) limit).Exact

theorem near_barring (hx : config.enables x = false) (text : String) :
    (barring x config.maxDepth).Near .behind (.ofText text config) (.ofText text config) where
  scan := ⟨rfl, .inr hx⟩
  context := .of_eq rfl
  recorded := .refl_nil rfl
  module := rfl
  depth := rfl
  limit := rfl
  limit_le := Nat.le_refl _
  limit_eq _ := rfl
  libraryNamespace _ := rfl
  declaredPrefixes _ := rfl

/-- The plain language is always on. -/
theorem ne_core_of_disabled (hx : config.enables x = false) : x ≠ .core := by
  rintro rfl
  cases hx

theorem ftOptions_declare (c : StaticContext) {d : DeclarationKind} (h : d.belongsTo ≠ .fullText) :
    (c.declare d).ftOptions = c.ftOptions := by
  obtain ⟨bindings, frames, given, hd⟩ := c.exists_declare d
  rw [hd]
  cases d with
  | ftOption options => exact (h rfl).elim
  | _ => rfl

/-- Without a declaration of match options a context has those that it began with. -/
theorem ftOptions_declareInOrder {c : StaticContext} {ds : List DeclarationKind}
    (h : ∀ d ∈ ds, d.belongsTo ≠ .fullText) : (c.declareInOrder ds).ftOptions = c.ftOptions := by
  induction ds generalizing c with
  | nil => rfl
  | cons d ds ih =>
    rw [List.forall_mem_cons] at h
    exact (ih h.2).trans (ftOptions_declare c h.1)

theorem ftOptions_contextBefore (m : Module) (config : Config) :
    (m.contextBefore (.ofConfig config)).ftOptions = none := by
  cases m with
  | main _ _ => rfl
  | library qualifier uri _ =>
    change (StaticContext.bind _ qualifier uri).ftOptions = none
    rw [StaticContext.bind_eq]
    rfl

/-- The match options of a module are those that it declares, whatever is imported. -/
theorem ParsedModule.Sound.ftOptions_eq {alone : Prop} {m : ParsedModule} (h : m.Sound text config alone)
    (huses : ¬m.module.Uses .fullText) : m.context.ftOptions = none := by
  have hsettings : m.context.unsigned.ftOptions =
      ((m.module.contextBefore (.ofConfig config)).declareInOrder m.module.declared).unsigned.ftOptions := by
    rw [h.settings.others]
  refine hsettings.trans ((ftOptions_declareInOrder ?_).trans (ftOptions_contextBefore m.module config))
  exact fun d hd hfull => huses (.inl ⟨d, hd, hfull⟩)

/-- An extension that is switched off leaves no trace: no node of the tree and no declaration belongs to
it, whatever is imported, and the static context has no match options without the full-text extension. -/
theorem disabled_extension_leaves_no_trace :
    ∀ (text : String) (config : Config) (x : Extension), config.enables x = false →
      (∀ e, parseExpression text config = .ok e → ¬e.Uses x) ∧
      ∀ (σ : Type) (importer : Option (Importer σ)) (kind : Option ModuleKind) (imports : σ) m,
        (parseModuleWith importer kind text config imports).1 = .ok m →
        ¬m.module.Uses x ∧ (x = .fullText → m.context.ftOptions = none) := by
  intro text config x hx
  have hcore := ne_core_of_disabled hx
  have hnear := near_barring hx text
  refine ⟨fun e he huses => ?_, fun σ importer kind imports m hm => ?_⟩
  · rcases parseExpression_follows trivial hnear he with hon | ⟨howes, -⟩
    · exact hcore hon.1
    · exact howes ⟨hcore, huses⟩
  · have huses : ¬m.module.Uses x := by
      rcases parseModuleWith_follows importer kind imports trivial hnear rfl (Prod.ext hm rfl) with
        ⟨hon, -⟩ | ⟨howes, -⟩
      · exact (hcore hon.1).elim
      · exact fun huses => howes ⟨hcore, huses⟩
    refine ⟨huses, ?_⟩
    rintro rfl
    exact (sound_of_parseModuleWith hm).ftOptions_eq huses

/-- Words of an extension that is switched off are names. -/
theorem score_is_name_without_fullText : ∃ m,
    parseModule none "declare option local:o 'x'; let $score := score return $score" .coreOnly = .ok m ∧
      m.module.nodes.length = 4 ∧ ¬m.module.Uses .fullText ∧ m.context.ftOptions = none := by
  obtain ⟨m, hm, hnodes⟩ := exists_ok_of_any
    (r := parseModule none "declare option local:o 'x'; let $score := score return $score" .coreOnly)
    (fun m => m.module.nodes.length == 4) (by
      rw [parseModule_eq, String.toList_ofList]
      decide +kernel)
  obtain ⟨huses, hoptions⟩ :=
    (disabled_extension_leaves_no_trace _ .coreOnly .fullText rfl).2 Unit none none () m
      ((fst_parseModuleWith _ _ _).trans hm)
  exact ⟨m, hm, beq_iff_eq.1 hnodes, huses, hoptions rfl⟩

end XQuerySyntax

/-! ### Extensions that are not used

Nothing changes if an extension is switched off and the module would show every use of it: an attribute that binds a namespace drops an expression from the tree, and a word that
says what a function may do says nothing about a variable. -/

namespace XQuerySyntax

open Grammar Comparison

variable {text : String} {x : Extension}

/-- The settings without one extension. -/
def Config.without (config : Config) (x : Extension) : Config :=
  { config with extensions := config.extensions.without x }

theorem near_lacking (hx : x ≠ .core → Unheard x text) (config : Config) :
    (lacking hx config.maxDepth).Near .behind (.ofText text config)
      (.ofText text (config.without x)) where
  scan := ⟨.ofText text config.extensions, (Nat.zero_add _).symm, rfl, rfl, .inl rfl, fun _ => rfl, .inl rfl,
    fun _ => rfl⟩
  context := .of_eq rfl
  recorded := .refl_nil rfl
  module := rfl
  depth := rfl
  limit := rfl
  limit_le := Nat.le_refl _
  limit_eq _ := rfl
  libraryNamespace _ := rfl
  declaredPrefixes _ := rfl

/-- A module that parses without showing an extension parses to the same without the extension, if no
word of the extension is overheard and nothing is dropped from the tree. -/
theorem switching_off_unused_extension_changes_nothing :
    ∀ (σ : Type) (importer : Option (Importer σ)) (kind : Option ModuleKind) (text : String)
      (config : Config) (x : Extension) (imports imports' : σ) (m : ParsedModule), Unheard x text →
      parseModuleWith importer kind text config imports = (.ok m, imports') → ¬m.module.Uses x →
      (∀ d ∈ m.diagnostics, d.code ≠ .namespaceAttributeNotLiteral) →
      parseModuleWith importer kind text (config.without x) imports = (.ok m, imports') := by
  intro σ importer kind text config x imports imports' m hx h huses hdropped
  have hfollows := parseModuleWith_follows importer kind imports (rfl : (lacking _ _).still)
    (near_lacking (fun _ => hx) config) rfl h
  refine (hfollows.resolve_left ?_).2
  rintro ⟨-, ⟨-, huse⟩ | ⟨d, hd, hcode⟩⟩
  · exact huses huse
  · exact hdropped d hd hcode

theorem not_hasWord_of_absent {word text : List Char} (h : ¬word <:+: text) : ¬HasWord word text := by
  rintro ⟨before, after, rfl, -⟩
  exact h ⟨before, after, List.append_assoc _ _ _⟩

example : ¬HasWord "simple".toList "sample function".toList := not_hasWord_of_absent (by decide +kernel)

theorem not_hasWords_of_absent {first second text : List Char} (h : ¬first <:+: text) :
    ¬HasWords first second text := by
  rintro ⟨before, space, after, rfl, -⟩
  exact h ⟨before, _, List.append_assoc _ _ _⟩

/-- What comes of a module that does not use an extension, and of one whose use of it is dropped. -/
theorem compared_modules :
    (parseModule none "declare function local:f() \x7b 1 \x7d; local:f()" .standard).toOption.any
        (fun m => !decide (m.module.Uses .update) && m.diagnostics.isEmpty) ∧
      (parseModule (some .main) "<a xmlns:p='\x7bdelete node $x\x7d'/>" .standard).toOption.any
        (fun m => !decide (m.module.Uses .update)) ∧
      (parseModule (some .main) "<a xmlns:p='\x7bdelete node $x\x7d'/>"
        (Config.standard.without .update)).toOption.isNone := by
  rw [parseModule_eq, parseModule_eq, parseModule_eq, String.toList_ofList, String.toList_ofList]
  decide +kernel

/-- A declared function parses alike whether or not functions may update. -/
theorem plain_function_parses_without_updates : ∃ m,
    parseModule none "declare function local:f() \x7b 1 \x7d; local:f()" .standard = .ok m ∧
      parseModule none "declare function local:f() \x7b 1 \x7d; local:f()"
        (Config.standard.without .update) = .ok m := by
  obtain ⟨m, hm, htest⟩ := exists_ok_of_any _ compared_modules.1
  rw [Bool.and_eq_true, Bool.not_eq_true', decide_eq_false_iff_not, List.isEmpty_iff] at htest
  obtain ⟨huses, hdiagnostics⟩ := htest
  have hunheard : Unheard .update "declare function local:f() \x7b 1 \x7d; local:f()" :=
    ⟨not_hasWord_of_absent (by
        rw [String.toList_ofList, String.toList_ofList]
        decide +kernel),
      List.forall_mem_singleton.2 (not_hasWords_of_absent (by
        rw [String.toList_ofList, String.toList_ofList]
        decide +kernel))⟩
  have hdropped : ∀ d ∈ m.diagnostics, d.code ≠ .namespaceAttributeNotLiteral := by
    rw [hdiagnostics]
    exact fun _ hd => nomatch hd
  have hwithout := switching_off_unused_extension_changes_nothing Unit none none _ .standard .update () () m
    hunheard (parseModuleWith_of_ok hm) huses hdropped
  exact ⟨m, hm, (fst_parseModuleWith _ _ _).symm.trans (congrArg Prod.fst hwithout)⟩

/-- An expression in an attribute that binds a namespace is recorded as an error and dropped: the tree
does not show that it has used an extension, without which the text does not parse. -/
theorem dropped_expression_needs_its_extension :
    ∃ m, parseModule (some .main) "<a xmlns:p='\x7bdelete node $x\x7d'/>" .standard = .ok m ∧
      ¬HasWord "simple".toList "<a xmlns:p='\x7bdelete node $x\x7d'/>".toList ∧
      Config.standard.extensions.update = true ∧ ¬m.module.Uses .update ∧
      ∀ m', parseModule (some .main) "<a xmlns:p='\x7bdelete node $x\x7d'/>"
        (Config.standard.without .update) ≠ .ok m' := by
  obtain ⟨-, htest, hfails⟩ := compared_modules
  obtain ⟨m, hm, huses⟩ := exists_ok_of_any _ htest
  rw [Bool.not_eq_true', decide_eq_false_iff_not] at huses
  have habsent : ¬"simple".toList <:+: "<a xmlns:p='\x7bdelete node $x\x7d'/>".toList := by
    rw [String.toList_ofList, String.toList_ofList]
    decide +kernel
  refine ⟨m, hm, not_hasWord_of_absent habsent, rfl, huses, fun m' hm' => ?_⟩
  rw [hm'] at hfails
  cases hfails

end XQuerySyntax

/-! ### Space in front of a text

Such space moves the tree that the text is parsed to, and changes nothing else of it. Every node moves by the length of the space, save those whose place has been looked up in front of
the first token: the look-ahead stops at a comment. -/

namespace XQuerySyntax

open Grammar Comparison

variable {config : Config} {lead text : String}

/-- Space in front of the text brings the parser to a state that is as good. -/
theorem Comparison.near_leading (hlead : Trivia lead.toList) :
    (leading text hlead config.maxDepth).Near .anywhere (.ofText text config)
      (.ofText (lead ++ text) config) where
  scan := by
    have hchars : (lead ++ text).toList = lead.toList ++ text.toList := String.toList_append
    have hlined : Lined text.toList lead.toList text.toList (lead ++ text).toList := .inr ⟨rfl, hchars⟩
    refine ⟨.ofText text config.extensions, ?_, rfl, rfl, hlined, fun h => (h rfl).elim, hlined, ?_⟩
    · change byteLength (lead ++ text).toList = byteLength lead.toList + byteLength text.toList
      rw [hchars, byteLength_append]
    · rintro (⟨⟨⟩⟩ | ⟨⟨⟩⟩)
  context := .of_eq rfl
  recorded := .refl_nil rfl
  module := rfl
  depth := rfl
  limit := rfl
  limit_le := Nat.le_refl _
  limit_eq _ := rfl
  libraryNamespace _ := rfl
  declaredPrefixes _ := rfl

/-- With space in front of it a text is parsed to the same tree. Its nodes have moved by the length of
the space, if those that stand where the look-ahead stops in front of the text are put where it stops
in the text itself. There are none of these to put elsewhere if the space has no comments. -/
theorem leading_space_moves_tree :
    ∀ (config : Config) (lead text : String) (e : Expr), Trivia lead.toList →
      parseExpression text config = .ok e →
      ∃ e', parseExpression (lead ++ text) config = .ok e' ∧
        e'.moved (settled text.toList lead.toList) = e.moved (byteLength lead.toList + ·) ∧
        ((∀ c ∈ lead.toList, isBlank c) → e' = e.moved (byteLength lead.toList + ·)) := by
  intro config lead text e hlead h
  have hnear : (leading text hlead config.maxDepth).Near .anywhere (.ofText text config)
    (.ofText (lead ++ text) config) := near_leading hlead
  have hagree := (pairs_expressionUnit .anywhere).follows not_false _ _ hnear
  unfold parseExpression at h ⊢
  cases hr : expressionUnit (.ofText text config) with
  | error stop s =>
    rw [hr] at h
    cases h
  | ok a s =>
    rw [hr] at h hagree
    cases h
    rcases hagree with ⟨hon, -⟩ | ⟨-, e', s', hr', hlike, -⟩
    · exact (hon rfl).elim
    refine ⟨e', by rw [hr'], hlike.symm, fun hblank => ?_⟩
    have hmoved : e'.moved (settled text.toList lead.toList) = e.moved (byteLength lead.toList + ·) :=
      hlike.symm
    rwa [settled_of_blank hblank, Expr.moved_id] at hmoved

theorem trivia_of_comment {text : List Char} (h : skipCommentBody 0 text = some []) :
    Trivia ('(' :: ':' :: text) := by
  obtain ⟨body, hbody, rfl⟩ := commentTail_of_skipCommentBody h
  exact .comment hbody .nil

/-- A sum behind a nested comment: its node stands at the operator, which moves. -/
theorem sum_moves_with_nested_comment :
    ∃ e e', Trivia "(: a (: b :) :)".toList ∧ parseExpression "1 + $x" .standard = .ok e ∧
      parseExpression ("(: a (: b :) :)" ++ "1 + $x") .standard = .ok e' ∧
      e'.offset = 17 ∧
      e'.moved (settled "1 + $x".toList "(: a (: b :) :)".toList) =
        e.moved (byteLength "(: a (: b :) :)".toList + ·) := by
  have hlead : Trivia "(: a (: b :) :)".toList := trivia_of_comment (by decide)
  obtain ⟨-, hplain, hcommented, -⟩ := compared_expressions
  obtain ⟨e, he, -⟩ := exists_ok_of_any _ hplain
  obtain ⟨e₁, he₁, hoffset⟩ := exists_ok_of_any _ hcommented
  obtain ⟨e', he', hmoved, -⟩ := leading_space_moves_tree .standard _ _ e hlead he
  obtain rfl : e' = e₁ := Except.ok.inj (he'.symm.trans he₁)
  exact ⟨e, e', hlead, he, he', beq_iff_eq.1 hoffset, hmoved⟩

/-- A query behind a comment: its node has been placed by the look-ahead and does not move. -/
theorem query_stays_before_comment :
    ∃ e e', Trivia "(: c :)".toList ∧ parseExpression "for $x in 1 return 2" .standard = .ok e ∧
      parseExpression ("(: c :)" ++ "for $x in 1 return 2") .standard = .ok e' ∧
      e' ≠ e.moved (byteLength "(: c :)".toList + ·) := by
  obtain ⟨-, -, -, hplain, hcommented⟩ := compared_expressions
  obtain ⟨e, he, -⟩ := exists_ok_of_any _ hplain
  obtain ⟨e', he', hoffset⟩ := exists_ok_of_any _ hcommented
  refine ⟨e, e', trivia_of_comment (by decide), he, he', fun heq => ?_⟩
  have hmoved : e'.offset = byteLength "(: c :)".toList + e.offset := by rw [heq, Expr.offset_moved]
  have hzero : e'.offset = 0 := beq_iff_eq.1 hoffset
  have hlength : 0 < byteLength "(: c :)".toList := by decide
  omega

end XQuerySyntax
