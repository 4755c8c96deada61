import XQuerySyntax.Proofs.RoundTrip.Ladder
import XQuerySyntax.Proofs.RoundTrip.Reads

/-! Primary expressions and steps: how the parser reads each of them where it is printed, given how it
reads the expressions inside. -/

namespace XQuerySyntax

open XQuerySyntax.Parser Scan

/-! ### Tokens -/

section

variable {token : Token} {tokens : List Token} {space chars text text' rest : List Char}
  {state : LexicalState} {r : Rule} {found : Captures}

theorem takes_of_accepts (hcore : r.extension = .core) (hstate : r.states.contains state)
    (hblanks : state.skipsBlanks) (hcomments : state.skipsComments) (hspace : Trivia space)
    (hset : startsTrivia true text = false) (h : Accepts true r.items false none text rest found) :
    Takes state (space ++ text) r rest found :=
  ⟨hcore, hstate, matches_of_trivia hblanks hcomments hspace hset h⟩

/-- A rule with a fixed spelling takes a token that is spelled so. -/
theorem takes_spelling {spelling : String} (hcore : r.extension = .core)
    (hstate : r.states.contains state) (hblanks : state.skipsBlanks)
    (hcomments : state.skipsComments) (hitems : r.items = spelling.toList.map .char)
    (hspelling : isSpelling spelling.toList) (hspace : Trivia space)
    (hset : startsTrivia true (spelling.toList ++ rest) = false) (hend : endsToken rest) :
    Takes state (space ++ (spelling.toList ++ rest)) r rest [] := by
  apply takes_of_accepts hcore hstate hblanks hcomments hspace hset
  rw [hitems]
  exact accepts_spelling hspelling fun _ => hend.endsName

/-- A rule of the plain language with this spelling, allowed in a state that has comments. -/
def IsFixed (state : LexicalState) (r : Rule) (spelling : String) : Bool :=
  r.extension = .core && r.states.contains state && state.skipsBlanks && state.skipsComments &&
    r.items = spelling.toList.map .char && isSpelling spelling.toList

theorem takes_fixed {spelling : String} (hr : IsFixed state r spelling) (hmem : spelling ∈ token.spellings)
    (hspace : Trivia space) (hend : endsToken rest) :
    Takes state (space ++ (spelling.toList ++ rest)) r rest [] := by
  have hchars : token.Spells spelling.toList := Token.spells_of_mem hmem
  simp only [IsFixed, Bool.and_eq_true, decide_eq_true_eq] at hr
  obtain ⟨⟨⟨⟨⟨hcore, hstate⟩, hblanks⟩, hcomments⟩, hitems⟩, hword⟩ := hr
  exact takes_spelling hcore hstate hblanks hcomments hitems hword hspace (hchars.settled hend).1 hend

/-- A token with a fixed spelling is not empty. -/
theorem length_lt_of_fixed {spelling : String} (hmem : spelling ∈ token.spellings) :
    rest.length < (space ++ (spelling.toList ++ rest)).length := by
  have hall : ∀ token ∈ Token.fixed, ∀ spelling ∈ token.spellings, 0 < spelling.toList.length := by
    decide
  have hlonger := hall token (Token.mem_fixed hmem) spelling hmem
  simp only [List.length_append]
  omega

/-- The next token is taken by the rule with its spelling. -/
theorem Written.takes {spelling : String} (h : Written (token :: tokens) text rest)
    (state : LexicalState) (r : Rule) (hspelling : token.spellings = [spelling])
    (hr : IsFixed state r spelling) (hend : endsToken rest) :
    ∃ text', Spread tokens text' rest ∧ text'.length < text.length ∧ Takes state text r text' [] := by
  obtain ⟨space, chars, text', rfl, hspace, hchars, htext⟩ := h
  obtain ⟨spelling', hmem, rfl⟩ := hchars.spelling (by simp [hspelling])
  have heq : spelling' = spelling := by
    rw [hspelling] at hmem
    exact List.mem_singleton.1 hmem
  rw [heq] at hmem ⊢
  exact ⟨text', htext, length_lt_of_fixed hmem, takes_fixed hr hmem hspace (htext.ends hend)⟩

theorem takes_integer {value : Nat} (hvalue : value ≤ Numeral.maxInteger) (hspace : Trivia space)
    (hchars : (Token.integer value).Spells chars) (hend : endsToken rest) :
    Takes .expression (space ++ (chars ++ rest)) Terminal.numericLiteral rest
      [.number (.integer value)] := by
  have hset := (hchars.settled hend).1
  obtain ⟨hne, hdigits, rfl⟩ := hchars
  apply takes_of_accepts rfl rfl rfl rfl hspace hset
  have hitems : Terminal.numericLiteral.items = [.capture .number] := by rfl
  rw [hitems]
  exact accepts_number (scanNumeral_append hne hdigits hend.endsInteger)
    (Numeral.value_integer hvalue) (accepts_nil rest)

/-- A string in quotes is captured with its value. -/
theorem Token.Spells.accepts_string {value : String} {parts : List PatternItem} {afterWord : Bool}
    {text' : List Char} {found : Captures} (hchars : (Token.string value).Spells chars)
    (hquotes : ∀ c ∈ rest.head?, c ≠ '"' ∧ c ≠ '\'') (hparts : Accepts true parts false none rest text' found) :
    Accepts true (.capture .string :: parts) afterWord none (chars ++ rest) text'
      (.string value :: found) := by
  obtain ⟨quote, body, hquote, hbody, rfl⟩ := hchars
  have hclose : ∀ c ∈ rest.head?, c ≠ quote := by
    intro c hc
    rcases hquote with rfl | rfl
    · exact (hquotes c hc).1
    · exact (hquotes c hc).2
  have hscan := scanStringLiteral_append hquote hbody hclose
  rw [String.ofList_toList] at hscan
  rw [List.cons_append, List.append_assoc, List.singleton_append]
  exact Scan.accepts_string hscan hparts

theorem takes_string {value : String} (hspace : Trivia space)
    (hchars : (Token.string value).Spells chars) (hend : endsToken rest) :
    Takes .expression (space ++ (chars ++ rest)) Terminal.stringLiteral rest
      [.string value] := by
  have hitems : Terminal.stringLiteral.items = [.capture .string] := by rfl
  apply takes_of_accepts rfl rfl rfl rfl hspace (hchars.settled hend).1
  rw [hitems]
  exact hchars.accepts_string hend.ne_quotes (accepts_nil rest)

theorem takes_variable {n : SimpleName} (hspace : Trivia space)
    (hchars : (Token.varRef n).Spells chars) (hend : endsToken rest) :
    Takes .expression (space ++ (chars ++ rest)) Terminal.variableReference rest
      [.qualifiedName ⟨none, n.text⟩] := by
  have hset := (hchars.settled hend).1
  obtain ⟨inside, hinside, rfl⟩ := hchars
  apply takes_of_accepts rfl rfl rfl rfl hspace hset
  have hitems : Terminal.variableReference.items =
      [.char '$', .gap, .capture .qualifiedName] := by rfl
  have hname : startsTrivia true (n.chars ++ rest) = false :=
    n.settled hend
  have hscan := scanQualifiedName_append n.isName hend.endsName (hend.ne (by decide) (by decide))
  rw [hitems, List.cons_append, List.append_assoc]
  apply accepts_char (fun h => absurd h (by decide))
  apply accepts_gap (scanTrivia_append hinside hname) (fun h => absurd h (by decide))
  exact accepts_qualifiedName hscan (accepts_nil rest)

/-- A name that no colon follows is a name test. -/
theorem takes_nameTest {n : SimpleName} (hspace : Trivia space) (hset : startsTrivia true (n.chars ++ rest) = false)
    (hends : endsName rest) (hcolon : ∀ c ∈ rest.head?, c ≠ ':') :
    Takes .expression (space ++ (n.chars ++ rest)) Terminal.nameTest rest
      [.qualifiedName ⟨none, n.text⟩] := by
  apply takes_of_accepts rfl rfl rfl rfl hspace hset
  have hitems : Terminal.nameTest.items = [.capture .qualifiedName] := by rfl
  have hscan := scanQualifiedName_append n.isName hends hcolon
  rw [hitems]
  exact accepts_qualifiedName hscan (accepts_nil rest)

theorem takes_name {n : SimpleName} (hspace : Trivia space) (hend : endsToken rest) :
    Takes .expression (space ++ (n.chars ++ rest)) Terminal.nameTest rest
      [.qualifiedName ⟨none, n.text⟩] :=
  takes_nameTest hspace (n.settled hend) hend.endsName (hend.ne (by decide) (by decide))

/-- A call begins with its name and its parenthesis, with space between them. -/
theorem takes_call {n : SimpleName} (hspace : Trivia space)
    (h : Spread (.opening :: tokens) text rest) (hend : endsToken rest) :
    ∃ text', Spread tokens text' rest ∧ text'.length < text.length ∧
      Takes .expression (space ++ ("local:".toList ++ n.chars ++ text)) Terminal.functionCall text'
        [.qualifiedName ⟨some "local", n.text⟩] := by
  have hchars : (Token.localName n).Spells ("local:".toList ++ n.chars) := rfl
  have hset := (hchars.settled (h.ends hend)).1
  cases h with
  | @cons _ _ space' chars text' _ hspace' hne hchars htext =>
    have hopen := (hchars.settled (htext.ends hend)).1
    obtain ⟨spelling, hmem, rfl⟩ := hchars
    obtain rfl := List.mem_singleton.1 hmem
    refine ⟨text', htext, ?_, takes_of_accepts rfl rfl rfl rfl hspace hset ?_⟩
    · have hparen : "(".toList.length = 1 := rfl
      simp only [List.length_append]
      omega
    have hitems : Terminal.functionCall.items = [.capture .qualifiedName, .gap, .char '('] := by
      rfl
    have hname : endsName (space' ++ ("(".toList ++ text')) :=
      (endsToken.of_startsTrivia (hspace'.startsTrivia hne _)).endsName
    have hscan := scanQualifiedName_pair (show isName "local".toList by decide) n.isName hname
    have htext' : "local:".toList ++ n.chars ++ (space' ++ ("(".toList ++ text')) =
        "local".toList ++ ':' :: (n.chars ++ (space' ++ ("(".toList ++ text'))) := by
      rw [List.append_assoc]
      rfl
    rw [hitems, htext']
    apply accepts_qualifiedName hscan
    apply accepts_gap (scanTrivia_append hspace' hopen) (fun h => absurd h (by decide))
    exact accepts_char (fun h => absurd h (by decide)) (accepts_nil text')

/-- A conditional is told by its keyword and its parenthesis; the parenthesis is left. -/
theorem takes_conditional (hspace : Trivia space) (h : Spread (.opening :: tokens) text rest)
    (hend : endsToken rest) :
    ∃ text', Written (.opening :: tokens) text' rest ∧ text'.length < text.length ∧
      Takes .expression (space ++ ("if".toList ++ text)) Terminal.ifCondition text' [] := by
  have hchars : Token.ifWord.Spells "if".toList := ⟨"if", List.mem_cons_self, rfl⟩
  have hset := (hchars.settled (h.ends hend)).1
  cases h with
  | @cons _ _ space' chars text' _ hspace' hne hchars htext =>
    have hopen := (hchars.settled (htext.ends hend)).1
    obtain ⟨spelling, hmem, rfl⟩ := hchars
    obtain rfl := List.mem_singleton.1 hmem
    refine ⟨"(".toList ++ text', ?_, ?_, takes_of_accepts rfl rfl rfl rfl hspace hset ?_⟩
    · exact ⟨[], "(".toList, text', rfl, .nil, ⟨"(", hmem, rfl⟩, htext⟩
    · have hlonger := List.length_pos_iff.2 hne
      simp only [List.length_append]
      omega
    have hitems : Terminal.ifCondition.items =
        [.char 'i', .char 'f', .gap, .anchor, .char '('] := by
      rfl
    have hword : endsName (space' ++ ("(".toList ++ text')) :=
      (endsToken.of_startsTrivia (hspace'.startsTrivia hne _)).endsName
    rw [hitems]
    apply accepts_char (fun h => absurd h (by decide))
    apply accepts_char fun _ => hword
    apply accepts_gap (scanTrivia_append hspace' hopen) (fun h => absurd h (by decide))
    apply accepts_anchor
    exact accepts_char (fun h => absurd h (by decide)) (accepts_nil_anchor _ _)

end

/-! ### Values -/

namespace Grammar

variable {f : Frame} {l : Place} {saved : List LexicalState} {text rest : List Char}
  {single : Parser Expr} {P : Expr → Prop} {Q : Option Expr → Prop}

/-- Behind a primary expression without predicates and calls nothing is applied to it. -/
theorem reads_applications (e : Expr)
    (hbehind : ∀ r ∈ Layer.primary.rules, Declines .operator rest r) :
    Reads f (.behind saved rest) (applications single e) (fun e' => e' = e)
      (.behind saved rest) := by
  apply reads_iterate
  apply reads_iterateWithin_done
  apply reads_ifEat_declined (hbehind Terminal.predicateOpen (by simp [Layer.rules]))
  apply reads_ifEat_declined (hbehind Terminal.dynamicCall (by simp [Layer.rules]))
  exact reads_pure ⟨e, rfl, rfl⟩

theorem reads_furtherSteps_declined
    (hbehind : ∀ r ∈ Layer.primary.rules, Declines .operator rest r) :
    Reads f (.behind saved rest) (many (furtherSteps single)) (fun steps => steps = [])
      (.behind saved rest) := by
  apply reads_many
  apply reads_manyWithin_nil
  apply reads_ifEat_declined (hbehind Terminal.descendantsSeparator (by simp [Layer.rules]))
  apply reads_ifEat_declined (hbehind Terminal.slashSeparator (by simp [Layer.rules]))
  exact reads_pure rfl

/-- A value that no rule of its own begins is a path that begins with a step. -/
theorem passes_valueExpr (hvalue : ∀ r ∈ valueRules, Declines .expression text r) :
    Passes f (.before saved text) (valueExpr single)
      (requiredStep single >>= fun step => relativePath single .relative [step] step.offset)
      (.before saved text) := by
  apply passes_ifEat_declined (hvalue Terminal.validateType (by simp [valueRules]))
  apply passes_ifEat_declined (hvalue Terminal.validateMode (by simp [valueRules]))
  apply passes_ifEat_declined (hvalue Terminal.validate (by simp [valueRules]))
  apply passes_ifPeek_declined (hvalue Terminal.pragmaOpen (by simp [valueRules]))
  apply passes_ifEat_declined (hvalue Terminal.rootDescendants (by simp [valueRules]))
  apply passes_ifEat_declined (hvalue Terminal.rootSlash (by simp [valueRules]))
  exact passes_refl

theorem reads_valueExpr (hvalue : ∀ r ∈ valueRules, Declines .expression text r) {Step : Expr → Prop}
    (hstep : Reads f (.before saved text) (requiredStep single) Step (.behind saved rest))
    (hpath : ∀ e, Step e → Reads f (.behind saved rest) (relativePath single .relative [e] e.offset) P
      (.behind saved rest)) :
    Reads f (.before saved text) (valueExpr single) P (.behind saved rest) :=
  (passes_valueExpr hvalue).reads (reads_bind hstep hpath)

/-- A primary expression alone is a value. -/
theorem reads_valueExpr_primary (hvalue : ∀ r ∈ valueRules, Declines .expression text r)
    (hprimary : Reads f (.before saved text) (primary single) (fun o => ∃ e, o = some e ∧ P e)
      (.behind saved rest))
    (hstep : ∀ e, P e → ∀ axis test predicates, e.kind ≠ .step axis test predicates)
    (hbehind : ∀ r ∈ Layer.primary.rules, Declines .operator rest r) :
    Reads f (.before saved text) (valueExpr single) P (.behind saved rest) := by
  have hrequired : Reads f (.before saved text) (requiredStep single) P (.behind saved rest) := by
    have hstepExpr : Reads f (.before saved text) (stepExpr single)
        (fun o => ∃ e, o = some e ∧ P e) (.behind saved rest) := by
      refine reads_bind hprimary fun o ho => ?_
      obtain ⟨e, rfl, he⟩ := ho
      refine reads_bind (reads_applications e hbehind) fun e' he' => ?_
      rw [he']
      exact reads_pure ⟨e, rfl, he⟩
    refine reads_bind hstepExpr fun o ho => ?_
    obtain ⟨e, rfl, he⟩ := ho
    exact reads_pure he
  refine reads_valueExpr hvalue hrequired fun e he => ?_
  refine reads_bind (reads_furtherSteps_declined hbehind) fun steps hsteps => ?_
  rw [hsteps]
  simp only [List.flatten_nil, List.append_nil]
  split
  · rename_i heq
    exact absurd heq (hstep e he _ _ _)
  · exact reads_pure he

/-! ### Primary expressions -/

theorem reads_literal_number {value : Literal}
    (h : Takes .expression text Terminal.numericLiteral rest [.number value]) :
    Reads f (.before saved text) literal?
      (fun o => ∃ e, o = some e ∧ ∃ offset, e = .mk (.literal value) offset f.module)
      (.behind saved rest) := by
  apply reads_ifEat h
  refine reads_bind reads_start fun offset _ => ?_
  refine reads_bind (reads_captured fun captures => captures.number? 0) fun number hnumber => ?_
  apply reads_forget
  refine reads_bind (reads_node _ offset) fun e he => ?_
  rw [hnumber] at he
  exact reads_pure ⟨e, rfl, offset, he⟩

theorem reads_primary_number {value : Literal}
    (h : Takes .expression text Terminal.numericLiteral rest [.number value]) :
    Reads f (.before saved text) (primary single)
      (fun o => ∃ e, o = some e ∧ ∃ offset, e = .mk (.literal value) offset f.module)
      (.behind saved rest) := by
  refine reads_bind (reads_literal_number h) fun o ho => ?_
  obtain ⟨e, rfl, he⟩ := ho
  exact reads_pure ⟨e, rfl, he⟩

theorem reads_primary_string {value : String} (hnumber : Declines .expression text Terminal.numericLiteral)
    (h : Takes .expression text Terminal.stringLiteral rest [.string value]) :
    Reads f (.before saved text) (primary single)
      (fun o => ∃ e, o = some e ∧ ∃ offset, e = .mk (.literal (.string value)) offset f.module)
      (.behind saved rest) := by
  have hliteral : Reads f (.before saved text) literal?
      (fun o => ∃ e, o = some e ∧ ∃ offset, e = .mk (.literal (.string value)) offset f.module)
      (.behind saved rest) := by
    apply reads_ifEat_declined hnumber
    apply reads_ifEat h
    refine reads_bind reads_start fun offset _ => ?_
    refine reads_bind (reads_captured fun captures => captures.string 0) fun string hstring => ?_
    apply reads_forget
    refine reads_bind (reads_node _ offset) fun e he => ?_
    rw [hstring] at he
    exact reads_pure ⟨e, rfl, offset, he⟩
  refine reads_bind hliteral fun o ho => ?_
  obtain ⟨e, rfl, he⟩ := ho
  exact reads_pure ⟨e, rfl, he⟩

theorem reads_literal_declined (hnumber : Declines .expression text Terminal.numericLiteral)
    (hstring : Declines .expression text Terminal.stringLiteral) :
    Reads f (.before saved text) literal? (fun o => o = none) (.before saved text) := by
  apply reads_ifEat_declined hnumber
  apply reads_ifEat_declined hstring
  exact reads_pure rfl

theorem reads_variableName {n : QName} {caught : Option Captures} (hn : n.ResolvesIn f.context none)
    (h : Takes .expression text Terminal.variableReference rest
      [.qualifiedName ⟨n.qualifier, n.localPart⟩]) :
    Reads f ⟨text, ⟨.expression, saved⟩, caught⟩ variableName (fun q => q = n)
      (.behind saved rest) := by
  refine reads_bind (reads_expect h) fun _ _ => ?_
  refine reads_bind reads_start fun offset _ => reads_caughtName ?_
  exact reads_resolveName hn offset

/-- A variable is tested for before it is read. -/
theorem reads_primary_variable {n : QName} (hn : n.ResolvesIn f.context none)
    (hnumber : Declines .expression text Terminal.numericLiteral)
    (hstring : Declines .expression text Terminal.stringLiteral)
    (h : Takes .expression text Terminal.variableReference rest
      [.qualifiedName ⟨n.qualifier, n.localPart⟩]) :
    Reads f (.before saved text) (primary single)
      (fun o => ∃ e, o = some e ∧ ∃ offset, e = .mk (.varRef n) offset f.module)
      (.behind saved rest) := by
  refine reads_bind (reads_literal_declined hnumber hstring) fun o ho => ?_
  rw [ho]
  apply reads_ifPeek h
  refine reads_bind (reads_variableName hn h) fun q hq => ?_
  refine reads_bind reads_start fun offset _ => ?_
  refine reads_bind (reads_node _ offset) fun e he => ?_
  rw [hq] at he
  exact reads_pure ⟨e, rfl, offset, he⟩

/-- Behind an opening parenthesis stands a closing one, or an expression with one behind it. -/
theorem reads_primary_paren {inside : List Char}
    (hnumber : Declines .expression text Terminal.numericLiteral)
    (hstring : Declines .expression text Terminal.stringLiteral)
    (hvariable : Declines .expression text Terminal.variableReference)
    (h : Takes .expression text Terminal.lparen inside [])
    (hinside : Reads f (.before saved inside) (parenthesized single) P (.behind saved rest)) :
    Reads f (.before saved text) (primary single) (fun o => ∃ e, o = some e ∧ P e)
      (.behind saved rest) := by
  refine reads_bind (reads_literal_declined hnumber hstring) fun o ho => ?_
  rw [ho]
  apply reads_ifPeek_declined hvariable
  apply reads_ifEat h
  refine reads_bind (reads_forget hinside) fun e he => ?_
  exact reads_pure ⟨e, rfl, he⟩

theorem reads_parenthesized_empty (h : Takes .expression text Terminal.rparen rest []) :
    Reads f (.before saved text) (parenthesized single)
      (fun e => ∃ offset, e = .mk (.sequence []) offset f.module) (.behind saved rest) := by
  refine reads_bind reads_start fun offset _ => ?_
  apply reads_ifEat h
  apply reads_forget
  exact reads_weaken (reads_node _ offset) fun e he => ⟨offset, he⟩

theorem reads_parenthesized {close : List Char} (hclose : Declines .expression text Terminal.rparen)
    (hinside : Reads f (.before saved text) (expr single) P (.behind saved close))
    (h : Takes .operator close Terminal.rparen rest []) :
    Reads f (.before saved text) (parenthesized single) P (.behind saved rest) := by
  refine reads_bind reads_start fun offset _ => ?_
  apply reads_ifEat_declined hclose
  refine reads_bind hinside fun e he => ?_
  refine reads_bind (reads_expect h) fun _ _ => ?_
  exact reads_forget (reads_pure he)

/-! ### Names -/

theorem reads_directConstructor_declined
    (h : ∀ r ∈ constructorRules, Declines .expression text r) :
    Reads f (.before saved text) (directConstructor single) (fun o => o = none)
      (.before saved text) := by
  apply reads_ifEat_declined (h Terminal.elementOpen (by simp [constructorRules]))
  apply reads_ifEat_declined (h Terminal.commentOpen (by simp [constructorRules]))
  apply reads_ifEat_declined (h Terminal.piOpen (by simp [constructorRules]))
  exact reads_pure rfl

theorem reads_computedConstructor_declined
    (h : ∀ r ∈ constructorRules, Declines .expression text r) :
    Reads f (.before saved text) (computedConstructor single) (fun o => o = none)
      (.before saved text) := by
  have hkind : Reads f (.before saved text) (computedKind single) (fun k => k = none)
      (.before saved text) := by
    apply reads_ifEat_declined (h Terminal.computedDocument (by simp [constructorRules]))
    apply reads_ifEat_declined (h Terminal.computedElementNamed (by simp [constructorRules]))
    apply reads_ifEat_declined (h Terminal.computedElement (by simp [constructorRules]))
    apply reads_ifEat_declined (h Terminal.computedAttributeNamed (by simp [constructorRules]))
    apply reads_ifEat_declined (h Terminal.computedAttribute (by simp [constructorRules]))
    apply reads_ifEat_declined (h Terminal.computedText (by simp [constructorRules]))
    apply reads_ifEat_declined (h Terminal.computedComment (by simp [constructorRules]))
    apply reads_ifEat_declined (h Terminal.computedPiNamed (by simp [constructorRules]))
    apply reads_ifEat_declined (h Terminal.computedPi (by simp [constructorRules]))
    apply reads_ifEat_declined (h Terminal.computedNamespaceNamed (by simp [constructorRules]))
    apply reads_ifEat_declined (h Terminal.computedNamespace (by simp [constructorRules]))
    exact reads_pure rfl
  refine reads_bind reads_nextOffset fun _ _ => ?_
  refine reads_bind hkind fun k hk => ?_
  rw [hk]
  exact reads_pure rfl

/-- A named function, or a call. -/
def referenceOrCall (single : Parser Expr) : Parser (Option Expr) := do
  if ← eat Terminal.namedFunctionRef then
    return some (← namedFunctionRef)
  functionCall? single

/-- The primary expressions in front of calls, whether two dots are seen or not. -/
theorem passes_primary_of_dots {dots : Bool} (hliteral : ∀ r ∈ literalRules, Declines .expression text r)
    (hdots : Reads f (.before saved text) (peek Terminal.parentStep) (fun b => b = dots) (.before saved text))
    (hitem : dots = false → Declines .expression text Terminal.contextItem)
    (hfront : ∀ r ∈ constructorRules ++ [Terminal.orderedBlock, Terminal.unorderedBlock,
      Terminal.annotationName, Terminal.inlineFunction], Declines .expression text r) :
    Passes f (.before saved text) (primary single) (referenceOrCall single) (.before saved text) := by
  have hconstructor : ∀ r ∈ constructorRules, Declines .expression text r :=
    fun r hr => hfront r (List.mem_append_left _ hr)
  have hnumber := hliteral Terminal.numericLiteral (by simp [literalRules])
  have hstring := hliteral Terminal.stringLiteral (by simp [literalRules])
  refine passes_bind (reads_literal_declined hnumber hstring) fun o ho => ?_
  rw [ho]
  apply passes_ifPeek_declined (hliteral Terminal.variableReference (by simp [literalRules]))
  apply passes_ifEat_declined (hliteral Terminal.lparen (by simp [literalRules]))
  refine passes_bind hdots fun b hb => ?_
  extract_lets further
  have hfurther : Passes f (.before saved text) (further ()) (referenceOrCall single)
      (.before saved text) := by
    refine passes_bind (reads_directConstructor_declined hconstructor) fun o ho => ?_
    rw [ho]
    refine passes_bind (reads_computedConstructor_declined hconstructor) fun o ho => ?_
    rw [ho]
    apply passes_ifEat_declined (hfront Terminal.orderedBlock (by simp))
    apply passes_ifEat_declined (hfront Terminal.unorderedBlock (by simp))
    apply passes_ifPeek_declined (hfront Terminal.annotationName (by simp))
    apply passes_ifPeek_declined (hfront Terminal.inlineFunction (by simp))
    exact passes_refl
  rw [hb]
  cases dots with
  | false => exact passes_ifEat_declined (hitem rfl) hfurther
  | true => exact hfurther

/-- A text that begins like a name is tried last as a named function and as a call. -/
theorem passes_primary (h : ∀ r ∈ literalRules ++ frontRules, Declines .expression text r) :
    Passes f (.before saved text) (primary single) (referenceOrCall single) (.before saved text) := by
  have hfront : ∀ r ∈ frontRules, Declines .expression text r := fun r hr => h r (List.mem_append_right _ hr)
  refine passes_primary_of_dots (fun r hr => h r (List.mem_append_left _ hr))
    (reads_peek_declined (hfront Terminal.parentStep (by simp [frontRules])))
    (fun _ => hfront Terminal.contextItem (by simp [frontRules])) fun r hr => hfront r ?_
  rw [frontRules, List.append_assoc]
  exact List.mem_append_right _ hr

theorem reads_primary_name (h : ∀ r ∈ literalRules ++ primaryRules, Declines .expression text r)
    (hcall : Reads f (.before saved text) (functionCall? single) Q l) :
    Reads f (.before saved text) (primary single) Q l := by
  have hreference := h Terminal.namedFunctionRef (by simp [primaryRules])
  have hsplit : primaryRules = frontRules ++ [Terminal.namedFunctionRef] := rfl
  have hfront : ∀ r ∈ literalRules ++ frontRules, Declines .expression text r := by
    intro r hr
    refine h r ?_
    rw [hsplit, ← List.append_assoc]
    exact List.mem_append_left _ hr
  exact (passes_primary hfront).reads (reads_ifEat_declined hreference hcall)

theorem reads_functionName (qualifier name : String) (offset : Nat) :
    Reads f l (functionName ⟨some qualifier, name⟩ offset)
      (fun q => q = ⟨some qualifier, name, f.context.resolve? qualifier⟩) l := by
  refine reads_bind (reads_consult _) fun default _ => ?_
  refine reads_bind (reads_resolveQualifier qualifier offset) fun uri huri => ?_
  rw [huri]
  exact reads_pure rfl

/-- A call of a local function reads its arguments behind its parenthesis. -/
theorem reads_functionCall {n : SimpleName} {inside : List Char} {Args : List Expr → Prop}
    (h : Takes .expression text Terminal.functionCall inside
      [.qualifiedName ⟨some "local", n.text⟩])
    (hargs : Reads f (.before saved inside) (argumentList single) Args (.behind saved rest)) :
    Reads f (.before saved text) (functionCall? single)
      (fun o => ∃ e, o = some e ∧ ∃ offset args,
        e = .mk (.functionCall ⟨some "local", n.text, f.context.resolve? "local"⟩ args) offset f.module ∧
          Args args) (.behind saved rest) := by
  apply reads_unlessPeek h
  refine reads_bind (reads_captured fun captures => captures.qualifiedName 0) fun q hq => ?_
  have hname : q = ⟨some "local", n.text⟩ := hq
  rw [hname]
  refine reads_bind (reads_expect h) fun _ _ => ?_
  refine reads_bind reads_start fun offset _ => ?_
  refine reads_bind (reads_functionName "local" n.text offset) fun name hname => ?_
  refine reads_bind (reads_forget hargs) fun args hargs => ?_
  refine reads_bind (reads_node _ offset) fun e he => ?_
  rw [hname] at he
  exact reads_pure ⟨e, rfl, offset, args, he, hargs⟩

/-! ### Steps -/

theorem reads_kindTest_declined {stack : StateStack}
    (h : ∀ r ∈ kindRules, Declines stack.active text r) :
    Reads f (.at text stack) kindTest (fun o => o = none) (.at text stack) := by
  apply reads_ifEat_declined (h Terminal.kindDocument (by simp [kindRules]))
  apply reads_ifEat_declined (h Terminal.kindElement (by simp [kindRules]))
  apply reads_ifEat_declined (h Terminal.kindAttribute (by simp [kindRules]))
  apply reads_ifEat_declined (h Terminal.kindSchemaElement (by simp [kindRules]))
  apply reads_ifEat_declined (h Terminal.kindSchemaAttribute (by simp [kindRules]))
  apply reads_ifEat_declined (h Terminal.kindPi (by simp [kindRules]))
  have hsimple : ∀ o ∈ [(Terminal.kindComment, KindTest.comment), (Terminal.kindText, .text),
      (Terminal.kindNamespaceNode, .namespaceNode), (Terminal.kindNode, .anyKind)],
      Declines stack.active text o.1 := by
    intro o ho
    apply h
    simp only [List.mem_cons, List.not_mem_nil, or_false] at ho
    rcases ho with rfl | rfl | rfl | rfl <;> simp [kindRules]
  refine reads_bind (reads_eatFirst_declined hsimple) fun o ho => ?_
  rw [ho]
  exact reads_pure rfl

/-- A step to the children of a name. -/
theorem reads_axisStep {n : SimpleName} (h : ∀ r ∈ stepRules, Declines .expression text r)
    (hname : Takes .expression text Terminal.nameTest rest [.qualifiedName ⟨none, n.text⟩])
    (hbehind : ∀ r ∈ Layer.primary.rules, Declines .operator rest r) :
    Reads f (.before saved text) (axisStep single)
      (fun o => ∃ e, o = some e ∧ ∃ offset, e = .mk (.step .child
        (.name (.name ⟨none, n.text, f.context.elementNamespace?⟩)) []) offset f.module)
      (.behind saved rest) := by
  have hkind : ∀ r ∈ kindRules, Declines .expression text r :=
    fun r hr => h r (by simp [stepRules, hr])
  have htest : Reads f (.before saved text) (nameTest f.context.elementNamespace?)
      (fun o => o = some (.name ⟨none, n.text, f.context.elementNamespace?⟩))
      (.behind saved rest) := by
    apply reads_ifEat_declined (h Terminal.wildcardPrefix (by simp [stepRules]))
    apply reads_ifEat_declined (h Terminal.wildcardLocal (by simp [stepRules]))
    apply reads_ifEat_declined (h Terminal.wildcard (by simp [stepRules]))
    apply reads_ifEat hname
    refine reads_bind reads_start fun offset _ => ?_
    refine reads_bind (reads_captured fun captures => captures.qualifiedName 0) fun q hq => ?_
    rw [hq]
    exact reads_forget (reads_pure rfl)
  have hstep : Reads f (.before saved text) stepTest
      (fun o => ∃ offset, o =
        some (.child, .name (.name ⟨none, n.text, f.context.elementNamespace?⟩), offset))
      (.behind saved rest) := by
    refine reads_bind reads_nextOffset fun begin _ => ?_
    apply reads_ifEat_declined (h Terminal.axis (by simp [stepRules]))
    apply reads_ifEat_declined (h Terminal.abbrevAttribute (by simp [stepRules]))
    apply reads_ifEat_declined (h Terminal.parentStep (by simp [stepRules]))
    refine reads_bind (reads_kindTest_declined hkind) fun o ho => ?_
    rw [ho]
    refine reads_bind (reads_consult _) fun default hdefault => ?_
    rw [hdefault]
    refine reads_bind htest fun o ho => ?_
    rw [ho]
    exact reads_pure ⟨begin, rfl⟩
  have hpredicates : Reads f (.behind saved rest) (predicates single) (fun ps => ps = [])
      (.behind saved rest) := by
    apply reads_many
    apply reads_manyWithin_nil
    exact reads_whenEats_declined (hbehind Terminal.predicateOpen (by simp [Layer.rules]))
  refine reads_bind hstep fun o ho => ?_
  obtain ⟨offset, rfl⟩ := ho
  refine reads_bind (reads_goto .operator) fun _ _ => ?_
  refine reads_bind hpredicates fun ps hps => ?_
  rw [hps]
  refine reads_bind (reads_node _ offset) fun e he => ?_
  exact reads_pure ⟨e, rfl, offset, he⟩

/-- A step alone is a path. -/
theorem reads_valueExpr_step {n : SimpleName}
    (hvalue : ∀ r ∈ valueRules, Declines .expression text r)
    (hother : ∀ r ∈ literalRules ++ primaryRules, Declines .expression text r)
    (hstep : ∀ r ∈ stepRules, Declines .expression text r)
    (hname : Takes .expression text Terminal.nameTest rest [.qualifiedName ⟨none, n.text⟩])
    (hbehind : ∀ r ∈ Layer.primary.rules, Declines .operator rest r) :
    Reads f (.before saved text) (valueExpr single)
      (fun e => ∃ offset offset', e = .mk (.path .relative [.mk (.step .child
        (.name (.name ⟨none, n.text, f.context.elementNamespace?⟩)) []) offset' f.module]) offset
        f.module) (.behind saved rest) := by
  have hcall : Reads f (.before saved text) (functionCall? single) (fun o => o = none)
      (.before saved text) :=
    reads_unlessPeek_declined (hstep Terminal.functionCall (by simp [stepRules])) (reads_pure rfl)
  have hprimary : Reads f (.before saved text) (primary single) (fun o => o = none)
      (.before saved text) := reads_primary_name hother hcall
  have hrequired : Reads f (.before saved text) (requiredStep single)
      (fun e => ∃ offset, e = .mk (.step .child
        (.name (.name ⟨none, n.text, f.context.elementNamespace?⟩)) []) offset f.module)
      (.behind saved rest) := by
    have hstepExpr : Reads f (.before saved text) (stepExpr single)
        (fun o => ∃ e, o = some e ∧ ∃ offset, e = .mk (.step .child
          (.name (.name ⟨none, n.text, f.context.elementNamespace?⟩)) []) offset f.module)
        (.behind saved rest) := by
      refine reads_bind hprimary fun o ho => ?_
      rw [ho]
      exact reads_axisStep hstep hname hbehind
    refine reads_bind hstepExpr fun o ho => ?_
    obtain ⟨e, rfl, he⟩ := ho
    exact reads_pure he
  refine reads_valueExpr hvalue hrequired fun e he => ?_
  obtain ⟨offset', rfl⟩ := he
  refine reads_bind (reads_furtherSteps_declined hbehind) fun steps hsteps => ?_
  rw [hsteps]
  exact reads_weaken (reads_node _ _) fun e he => ⟨_, offset', he⟩

end Grammar

end XQuerySyntax
