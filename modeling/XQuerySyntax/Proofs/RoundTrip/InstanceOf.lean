import XQuerySyntax.Proofs.RoundTrip.SequenceType

/-! Tests of types. A variable is an operand in front of any phrase that does not assign to it, and what
`instance of` tests goes on with an operator as any other operand of its layer does. -/

namespace XQuerySyntax

open XQuerySyntax.Parser Grammar Glimpse

variable {text rest : List Char} {n : QName}

/-! ### Variables -/

/-- The ways that a variable begins which is not assigned to. -/
def referenceViews : List (List Glimpse) :=
  [[.name], [.name, .char ':', .name]].flatMap fun name =>
    [[.stop], [.gap, .unlike ':']].flatMap fun behind =>
      [.char '$' :: (name ++ behind), .char '$' :: .gap :: (name ++ behind)]

theorem referenceViews_settled : referenceViews.all isSettled := by rfl

/-- The rules that are tried in front of a variable. -/
def referenceRules : List Rule :=
  keywordRules ++ signRules ++ valueRules ++ [Terminal.numericLiteral, Terminal.stringLiteral]

theorem referenceRules_decline :
    (referenceRules.all fun r => referenceViews.all (Scan.declines .expression r)) = true := by
  rw [Scan.declines_eq]
  rfl

theorem Begun.begins_reference (h : Begun [.varName n] text rest) (hrest : Precludes [':'] rest) :
    Begins referenceViews text := by
  have hends := hrest.ends List.mem_cons_self
  obtain ⟨space, chars, text', rfl, hspace, ⟨hn, inside, hinside, rfl⟩, htext⟩ := h
  cases htext
  have hname : n.view ∈ [[.name], [.name, .char ':', .name]] := by
    unfold QName.view
    split <;> simp
  obtain ⟨behind, hbehind, hs⟩ : ∃ behind ∈ [[.stop], [.gap, .unlike ':']],
      Shows true behind rest := by
    rcases hrest with rfl | hrest
    · exact ⟨[.stop], by simp, rfl⟩
    · exact ⟨_, by simp, hrest ':' List.mem_cons_self⟩
  have hview := QName.shows_view hn hends.endsName hs
  have htext : '$' :: (inside ++ n.text.toList) ++ rest = '$' :: (inside ++ (n.text.toList ++ rest)) := by
    rw [List.cons_append, List.append_assoc]
  have hmem {view : List Glimpse} (hv : view ∈
      [.char '$' :: (n.view ++ behind), .char '$' :: .gap :: (n.view ++ behind)]) : view ∈ referenceViews :=
    List.mem_flatMap.2 ⟨n.view, hname, List.mem_flatMap.2 ⟨behind, hbehind, hv⟩⟩
  by_cases hne : inside = []
  · subst hne
    exact begins_token hspace (hmem List.mem_cons_self) ⟨_, rfl, hview⟩
  · refine begins_token hspace (hmem (List.mem_cons_of_mem _ List.mem_cons_self)) ?_
    rw [htext]
    exact ⟨_, rfl, _, hinside.startsTrivia hne _,
      scanTrivia_append hinside (QName.settled hn hends.endsName), hview⟩

namespace Grammar

variable {f : Frame} {saved : List LexicalState} {single : Parser Expr}

/-- A variable is read as an operand of the tightest layer. -/
theorem reads_reference (hn : n.ResolvesIn f.context none) (h : Begun [.varName n] text rest)
    (hrest : Precludes [':'] rest) (hbehind : ∀ r ∈ Layer.primary.rules, Declines .operator rest r) :
    Reads f (.before saved text) (valueExpr single)
      (fun e => ∃ offset, e = .mk (.varRef n) offset f.module) (.behind saved rest) := by
  have hends := hrest.ends List.mem_cons_self
  have hrules := (h.begins_reference hrest).of_rules referenceViews_settled referenceRules_decline
  obtain ⟨mid, hmid, -, htake⟩ := h.takes_reference hends .expression (by rfl)
  cases hmid
  apply reads_valueExpr_primary (fun r hr => hrules r (by simp [referenceRules, hr]))
  · exact reads_primary_variable hn (hrules _ (by simp [referenceRules]))
      (hrules _ (by simp [referenceRules])) htake
  · rintro e ⟨offset, rfl⟩ axis test predicates hkind
    cases hkind
  · exact hbehind

/-! ### Tests of types -/

/-- A test whether a variable is of a type. -/
def instancePieces (n : QName) (t : SequenceType) : List Piece :=
  .varName n :: (marks ["instance", "of"] ++ t.pieces)

/-- The expression tests whether the variable is of the type. -/
def IsInstanceTest (module : ModuleId) (n : QName) (t : SequenceType) (e : Expr) : Prop :=
  ∃ offset offset', e = .mk (.instanceOf (.mk (.varRef n) offset module) t) offset' module

/-- Behind the variable no operator is taken that binds more tightly. -/
theorem instanceView_decline :
    ((Layer.primary.rules ++ [Terminal.castAs, Terminal.castableAs, Terminal.treatAs]).all fun r =>
      Scan.declinesAt .operator r (Piece.views [] (marks ["instance", "of"]))) = true := by
  rw [Scan.declinesAt_eq]
  rfl

/-- The test is read as an operand of its layer, and behind it the scanner looks for an operator. -/
theorem reads_instanceTest {t : SequenceType} {k : Nat} (hn : n.ResolvesIn f.context none)
    (ht : t.WellWritten f.context) (hdepth : f.depth + t.levels ≤ f.maxDepth)
    (hsize : text.length ≤ f.size) (h : Begun (instancePieces n t) text rest)
    (hrest : Precludes typeGoesOn rest) :
    Reads f (.before saved text) (Layer.unary.parser k) (IsInstanceTest f.module n t)
      (.behind saved rest) := by
  have hends := hrest.ends List.mem_cons_self
  have htext : Begun ([Piece.varName n] ++ (marks ["instance", "of"] ++ t.pieces)) text rest := h
  obtain ⟨mid, hvariable, hmid⟩ := htext.append (List.cons_ne_nil _ _)
  have hoperator : Begun (marks ["instance", "of"] ++ t.pieces) mid rest := hmid.begun (by simp)
  have hdeclines : ∀ r ∈ Layer.primary.rules ++ [Terminal.castAs, Terminal.castableAs,
      Terminal.treatAs], Declines .operator mid r :=
    fun r hr => hoperator.declines (List.cons_ne_nil _ _) hends .operator r
      (List.all_eq_true.1 instanceView_decline r hr)
  have hcolon : Precludes [':'] mid := Spaced.precludes hmid hends (by rfl)
  have hbegins := hvariable.begins_reference hcolon
  have hvalue : Reads f (.before saved text) (valueExpr (singleWithin k))
      (fun e => ∃ offset, e = .mk (.varRef n) offset f.module) (.behind saved mid) :=
    reads_reference hn hvariable hcolon fun r hr => hdeclines r (List.mem_append_left _ hr)
  have htreat : Reads f (.before saved text) (treatExpr (singleWithin k))
      (fun e => ∃ offset, e = .mk (.varRef n) offset f.module) (.behind saved mid) := by
    have hsigns := hbegins.of_rules referenceViews_settled referenceRules_decline
    have hunary := reads_unaryExpr (fun r hr => hsigns r (by simp [referenceRules, hr])) hvalue
    apply reads_suffixed _ (hdeclines Terminal.treatAs (by simp))
    apply reads_suffixed _ (hdeclines Terminal.castableAs (by simp))
    exact reads_suffixed hunary (hdeclines Terminal.castAs (by simp))
  obtain ⟨behind, hbehind, hlt, htake⟩ := hoperator.takes hends .operator Terminal.instanceOf rfl (by rfl)
  have hle := hvariable.length_le
  have htype : Reads f (.at behind ⟨.kindTest, saved⟩) (sequenceType .operator) (fun t' => t' = t)
      (.behind saved rest) :=
    reads_sequenceType ht hdepth (by omega) (hbehind.begun t.pieces_ne_nil) hrest
  refine reads_bind htreat fun e he => ?_
  obtain ⟨offset, rfl⟩ := he
  apply reads_ifEat htake
  refine reads_bind reads_start fun offset' _ => ?_
  have hform : Reads f (.at behind ⟨.kindTest, saved⟩)
      (do return ExprKind.instanceOf (Expr.mk (.varRef n) offset f.module) (← sequenceType .operator))
      (fun kind => kind = .instanceOf (.mk (.varRef n) offset f.module) t) (.behind saved rest) := by
    refine reads_bind htype fun t' ht' => ?_
    rw [ht']
    exact reads_pure rfl
  refine reads_bind (reads_forget hform) fun kind hkind => ?_
  rw [hkind]
  exact reads_weaken (reads_node _ offset') fun e he => ⟨offset, offset', he⟩

end Grammar

/-! ### Operators behind a test -/

/-- What may come behind a test of a type: nothing, or an operator with its right operand. -/
inductive Continuation where
  | nothing
  | operator (op : BinaryOperator) (right : OperatorTree)
  | range (last : OperatorTree)

namespace Continuation

/-- The tokens of the operator and its right operand. -/
def tokens : Continuation → List Token
  | nothing => []
  | operator op right => .operator op :: right.tokensAt op.layer.tighter
  | range last => .toWord :: last.tokensAt .additive

/-- The largest number of single expressions open at a time in the right operand. -/
def inner : Continuation → Nat
  | nothing => 0
  | operator op right => right.openAt op.layer.tighter
  | range last => last.openAt .additive

/-- The operator is not spelled like an occurrence indicator. -/
def isPlain : Continuation → Bool
  | operator op _ => op != .multiply && op != .plus
  | nothing | range _ => true

/-- The operator is applied to the whole of what comes in front of it. -/
def Denotes (context : StaticContext) (module : ModuleId) (P : Expr → Prop) :
    Continuation → Expr → Prop
  | nothing, e => P e
  | operator op right, e => ∃ offset l r, e = .mk (.binary op l r) offset module ∧ P l ∧
      right.Denotes context module r
  | range last, e => ∃ offset l r, e = .mk (.range l r) offset module ∧ P l ∧
      last.Denotes context module r

/-- No operator begins with what would go on with a type, but the two that are spelled like an
indicator. -/
theorem typeGoesOn_following :
    ((.toWord :: ((BinaryOperator.all.filter fun op => op != .multiply && op != .plus).map
      Token.operator)).all fun token => token.spellings.all fun spelling =>
        followingView spelling = .gap :: (followingView spelling).tail &&
          typeGoesOn.all fun c => next? c (followingView spelling).tail = none) = true := by
  rfl

theorem precludes_token {token : Token} {tokens : List Token} {mid : List Char}
    (htoken : token ∈ .toWord :: ((BinaryOperator.all.filter fun op => op != .multiply && op != .plus).map
      Token.operator)) (hfollowing : token ∈ Token.following) (hne : tokens ≠ [])
    (h : Spread (token :: tokens) mid rest) (hends : endsToken rest) : Precludes typeGoesOn mid := by
  cases h with
  | @cons _ _ space chars mid _ hspace hsome hchars htext =>
    obtain ⟨spelling, hmem, rfl⟩ := hchars.spelling (Token.spellings_ne_nil hfollowing)
    have hall := List.all_eq_true.1 (List.all_eq_true.1 typeGoesOn_following token htoken) spelling hmem
    rw [Bool.and_eq_true, decide_eq_true_eq] at hall
    obtain ⟨hview, hnone⟩ := hall
    have hs := shows_following hmem hspace hsome htext hends (.inl hne)
    rw [hview] at hs
    exact .of_shows hs hnone

/-- A type ends in front of the operator. -/
theorem precludes (next : Continuation) (hplain : next.isPlain) {mid : List Char}
    (h : Spread next.tokens mid rest) (hrest : Trivia rest) : Precludes typeGoesOn mid := by
  have hends := (behind_space hrest).ends
  cases next with
  | nothing =>
    cases h
    exact .of_space hrest
  | operator op right =>
    have hmem : Token.operator op ∈ (BinaryOperator.all.filter fun op => op != .multiply && op != .plus).map
        Token.operator := List.mem_map_of_mem (List.mem_filter.2 ⟨op.mem_all, hplain⟩)
    exact precludes_token (List.mem_cons_of_mem _ hmem) (Token.operator_mem_following op)
      (right.tokensAt_ne_nil _) h hends
  | range last =>
    exact precludes_token List.mem_cons_self (by simp [Token.following]) (last.tokensAt_ne_nil _) h hends

variable {f : Frame} {saved : List LexicalState} {k : Nat} {P : Expr → Prop} {mid : List Char}

/-- What is read as an operand of the layer of type tests is read with the operator behind it. -/
theorem reads (next : Continuation)
    (hleft : Reads f (.before saved text) (Layer.unary.parser k) P (.behind saved mid))
    (h : Spread next.tokens mid rest) (hrest : Trivia rest) (hsize : mid.length ≤ f.size)
    (hopens : next.inner ≤ k) (hdepth : f.depth + next.inner ≤ f.maxDepth) :
    Reads f (.before saved text) (Layer.or.parser k) (next.Denotes f.context f.module P)
      (.behind saved rest) := by
  have hend := behind_space hrest
  have hunary {place : Layer} {bound : Nat} (hmid : Behind bound mid) (hbound : place.rank < bound)
      (hlayer : Layer.unary.rank ≤ place.rank) (hplace : place.rank ≤ Layer.or.rank) :
      Reads f (.before saved text) (place.parser k) P (.behind saved mid) :=
    Layer.reads_looser hmid hbound hlayer hplace (fun heq => by cases heq) hleft
  cases next with
  | nothing =>
    cases h
    exact hunary hend (by decide) (by decide) (by decide)
  | operator op right =>
    have hmid := h.behind (Token.operator_mem_following op) hend.ends (.inl (right.tokensAt_ne_nil _))
    have hor : op.layer.rank ≤ Layer.or.rank := by cases op <;> decide
    have htighter : Layer.unary.rank ≤ op.layer.tighter.rank := by cases op <;> decide
    have hrank : op.layer.tighter.rank < op.layer.rank := by cases op <;> decide
    have hoperand := hunary hmid hrank htighter (by omega)
    have hbound : op.layer.rank < Layer.sequence.rank + 1 := by cases op <;> decide
    have hread : Reads f (.before saved text) (op.layer.parser k)
        ((operator op right).Denotes f.context f.module P) (.behind saved rest) := by
      rcases op.layer_cases with hcomparison | hchain
      · have htight : op.layer.tighter = .range := by rw [hcomparison]; rfl
        rw [hcomparison]
        change Spread (.operator op :: right.tokensAt op.layer.tighter) mid rest at h
        change right.openAt op.layer.tighter ≤ k at hopens
        change f.depth + right.openAt op.layer.tighter ≤ f.maxDepth at hdepth
        rw [htight] at hoperand h hopens hdepth
        exact OperatorTree.reads_comparison hcomparison hoperand (right.readable.reads _) hopens hdepth hsize h hend
          (by decide)
      · exact OperatorTree.reads_chain_binary hchain hoperand (right.readable.reads _) hopens hdepth hsize h hend
          hbound
    exact Layer.reads_looser hend (by decide) hor (Nat.le_refl _)
      (fun heq => absurd heq (by cases op <;> decide)) hread
  | range last =>
    have hmid := h.behind (by simp [Token.following]) hend.ends (.inl (last.tokensAt_ne_nil _))
    have hoperand : Reads f (.before saved text) (Layer.additive.parser k) P (.behind saved mid) :=
      hunary hmid (by decide) (by decide) (by decide)
    have hread : Reads f (.before saved text) (Layer.range.parser k)
        ((range last).Denotes f.context f.module P) (.behind saved rest) :=
      OperatorTree.reads_range hoperand (last.readable.reads _) hopens hdepth hsize h hend (by decide)
    exact Layer.reads_looser hend (by decide) (by decide) (Nat.le_refl _) (fun heq => by cases heq) hread

/-- There are more tokens than single expressions open at a time. -/
theorem inner_le (next : Continuation) : next.inner ≤ next.tokens.length := by
  cases next with
  | nothing => exact Nat.le_refl _
  | operator op right =>
    exact Nat.le_succ_of_le (OperatorTree.openAt_le right.inner_lt_length op.layer.tighter)
  | range last => exact Nat.le_succ_of_le (OperatorTree.openAt_le last.inner_lt_length .additive)

end Continuation

/-- The text is the test with what comes behind it, and space of any kind between all its tokens. -/
def PrintsInstanceTest (n : QName) (t : SequenceType) (next : Continuation) (text : List Char) :
    Prop :=
  ∃ mid space, Trivia space ∧ Begun (instancePieces n t) text mid ∧ Spread next.tokens mid space

/-- A test of a type is read with what comes behind it as a whole text. -/
theorem reads_printedTest {f : Frame} {saved : List LexicalState} {t : SequenceType}
    {next : Continuation} {mid space : List Char} (hn : n.ResolvesIn f.context none)
    (ht : t.WellWritten f.context) (hplain : next.isPlain) (hspace : Trivia space)
    (htest : Begun (instancePieces n t) text mid) (hnext : Spread next.tokens mid space)
    (hsize : text.length ≤ f.size) (hlevels : f.depth + t.levels < f.maxDepth)
    (hopens : f.depth + next.inner < f.maxDepth) :
    Reads f (.before saved text) (expr exprSingle)
      (next.Denotes f.context f.module (IsInstanceTest f.module n t)) (.behind saved space) := by
  let inner : Frame := { f with depth := f.depth + 1 }
  have hprecludes := next.precludes hplain hnext hspace
  have hend := behind_space hspace
  have hle := htest.length_le
  have hcount := hnext.count_le
  have htokens := next.inner_le
  have hdepth : f.depth + 1 + t.levels ≤ f.maxDepth := by omega
  have hdepth' : f.depth + 1 + next.inner ≤ f.maxDepth := by omega
  have hleft : Reads inner (.before saved text) (Layer.unary.parser f.size)
      (IsInstanceTest f.module n t) (.behind saved mid) :=
    reads_instanceTest (f := inner) hn ht hdepth hsize htest hprecludes
  have hread := next.reads (f := inner) hleft hnext hspace (Nat.le_trans hle hsize) (by omega) hdepth'
  have hbegins : ∀ r ∈ referenceRules, Declines .expression text r := by
    have hfirst : Begun ([Piece.varName n] ++ (marks ["instance", "of"] ++ t.pieces)) text mid := htest
    obtain ⟨behind, hvariable, hmore⟩ := hfirst.append (List.cons_ne_nil _ _)
    have hcolon : Precludes [':'] behind := Spaced.precludes hmore (hprecludes.ends List.mem_cons_self) (by rfl)
    exact (hvariable.begins_reference hcolon).of_rules referenceViews_settled referenceRules_decline
  have hsingle : Reads f (.before saved text) exprSingle
      (next.Denotes f.context f.module (IsInstanceTest f.module n t)) (.behind saved space) := by
    apply OperatorTree.reads_exprSingle
    refine reads_nested (by omega) (reads_singleOf (fun r hr => hbegins r (by simp [referenceRules, hr])) ?_)
    exact hread
  exact reads_expr hsingle (hend.declines (Nat.lt_succ_self _) Terminal.comma List.mem_cons_self)

/-- A test of a sequence type is parsed back, with space of any kind between its tokens, if the type may
be nested so deeply: wherever it stands the scanner looks for an operator behind it, and in a whole text
an operator behind it that is not spelled like an occurrence indicator is applied to all of it. -/
theorem printed_sequence_type_is_parsed_back (n : QName) (t : SequenceType) :
    (∀ (f : Frame) (saved : List LexicalState) (text rest : List Char) (k : Nat),
      n.ResolvesIn f.context none → t.WellWritten f.context → f.depth + t.levels ≤ f.maxDepth →
        text.length ≤ f.size → Begun (instancePieces n t) text rest → Precludes typeGoesOn rest →
          Reads f (.before saved text) (instanceOfExpr (singleWithin k)) (IsInstanceTest f.module n t)
            (.behind saved rest)) ∧
    ∀ (text : String) (config : Config) (next : Continuation),
      n.ResolvesIn (.ofConfig config) none → t.WellWritten (.ofConfig config) →
        t.levels < config.maxDepth → next.inner < config.maxDepth → next.isPlain →
          PrintsInstanceTest n t next text.toList →
            ∃ e, parseExpression text config = .ok e ∧
              next.Denotes (.ofConfig config) (.ofLocation? config.sourceUri)
                (IsInstanceTest (.ofLocation? config.sourceUri) n t) e := by
  constructor
  · intro f saved text rest k hn ht hdepth hsize htext hrest
    exact reads_instanceTest hn ht hdepth hsize htext hrest
  · intro text config next hn ht hlevels hopens hplain hprints
    obtain ⟨mid, space, hspace, htest, hnext⟩ := hprints
    have hlevels' : (wholeFrame text config).depth + t.levels < (wholeFrame text config).maxDepth := by
      rw [← Nat.zero_add t.levels] at hlevels
      exact hlevels
    have hopens' : (wholeFrame text config).depth + next.inner < (wholeFrame text config).maxDepth := by
      rw [← Nat.zero_add next.inner] at hopens
      exact hopens
    exact parseExpression_of_reads hspace
      (reads_printedTest hn ht hplain hspace htest hnext (length_le_size text config) hlevels' hopens')

/-- Any number of elements with a name like a keyword and a type annotation. -/
def SequenceType.someItems : SequenceType :=
  .mk (.kindTest (.element (some (.name ⟨none, "item", none⟩))
    (some ⟨⟨some "xs", "integer", some Namespaces.schema⟩, true⟩))) .zeroOrMore

theorem test_of_items_is_parsed_back :
    QName.ResolvesIn (.ofConfig .standard) none ⟨none, "x", none⟩ ∧
      SequenceType.someItems.WellWritten (.ofConfig .standard) ∧
      PrintsInstanceTest ⟨none, "x", none⟩ .someItems (.operator .equals (.integer 1 (by decide)))
        "$x instance of element ( item , xs:integer ? ) * = 1".toList ∧
      Reads (wholeFrame "$x instance of element ( item , xs:integer ? ) * = 1" .standard)
        (.before [] "$x instance of element ( item , xs:integer ? ) * = 1".toList)
        (instanceOfExpr (singleWithin 0))
        (IsInstanceTest (.ofLocation? none) ⟨none, "x", none⟩ .someItems)
        (.behind [] " = 1".toList) ∧
      ∃ e, parseExpression "$x instance of element ( item , xs:integer ? ) * = 1" .standard = .ok e ∧
        (Continuation.operator .equals (.integer 1 (by decide))).Denotes (.ofConfig .standard)
          (.ofLocation? none) (IsInstanceTest (.ofLocation? none) ⟨none, "x", none⟩ .someItems) e := by
  have hx : QName.ResolvesIn (.ofConfig .standard) none ⟨none, "x", none⟩ := ⟨by decide, rfl⟩
  have hitems : SequenceType.someItems.WellWritten (.ofConfig .standard) := by
    refine .items (.kindTest (.root (.element ⟨fun h => absurd h (by simp), ?_, ?_, fun _ _ _ => rfl⟩))) (.inl rfl)
    · rintro _ ⟨⟩
      exact ⟨by decide, rfl⟩
    · rintro _ ⟨⟩
      exact ⟨by decide, by decide⟩
  have blank : Trivia [' '] := .blank ' ' (by decide) .nil
  have hsome : [' '] ≠ [] := by decide
  have mark (word : String) (h : isKeyword word.toList || isSymbol word.toList) :
      (Piece.mark word).Spells word.toList := ⟨h, rfl⟩
  have name (n : QName) (h : n.isLexical) : (Piece.name n).Spells n.text.toList := ⟨h, rfl⟩
  have hequals : Spread (Continuation.operator .equals (.integer 1 (by decide))).tokens " = 1".toList [] :=
    @Spread.cons _ _ [' '] ['='] _ _ blank hsome ⟨"=", by decide, rfl⟩
      (@Spread.cons _ _ [' '] ['1'] _ _ blank hsome
        ⟨by decide, List.forall_mem_singleton.2 (by decide), by decide⟩ (.nil []))
  have htest : Begun (instancePieces ⟨none, "x", none⟩ .someItems)
      "$x instance of element ( item , xs:integer ? ) * = 1".toList " = 1".toList := by
    rw [String.toList_ofList, String.toList_ofList]
    exact ⟨[], ['$', 'x'], _, rfl, .nil, ⟨by decide, [], .nil, rfl⟩,
      .blank (mark "instance" (by decide)) (.blank (mark "of" (by decide))
        (.blank (mark "element" (by decide)) (.blank (mark "(" (by decide))
          (.blank (name ⟨none, "item", none⟩ (by decide))
            (.blank (mark "," (by decide))
              (.blank (name ⟨some "xs", "integer", some Namespaces.schema⟩ (by decide))
                (.blank (mark "?" (by decide)) (.blank (mark ")" (by decide))
                  (.blank (mark "*" (by decide)) (.nil _))))))))))⟩
  have hprints : PrintsInstanceTest ⟨none, "x", none⟩ .someItems
      (.operator .equals (.integer 1 (by decide)))
      "$x instance of element ( item , xs:integer ? ) * = 1".toList :=
    ⟨_, [], .nil, htest, hequals⟩
  have hends : Precludes typeGoesOn " = 1".toList :=
    (Continuation.operator .equals (.integer 1 (by decide))).precludes rfl hequals .nil
  exact ⟨hx, hitems, hprints,
    (printed_sequence_type_is_parsed_back _ _).1 _ [] _ _ 0 hx hitems (by decide)
      (length_le_size _ _) htest hends,
    (printed_sequence_type_is_parsed_back _ _).2 _ _ _ hx hitems (by decide) (by decide) rfl hprints⟩

end XQuerySyntax
