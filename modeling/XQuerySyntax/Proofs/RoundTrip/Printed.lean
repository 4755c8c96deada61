import XQuerySyntax.Proofs.RoundTrip.Chain

/-! Every operator expression that is printed is parsed back, if as many single expressions may be open
at a time as it needs. -/

namespace XQuerySyntax

open XQuerySyntax.Parser Grammar

/-! ### Lengths -/

section

variable {tokens : List Token} {text rest : List Char}

theorem Spread.count_le (h : Spread tokens text rest) :
    tokens.length ≤ text.length := by
  induction h with
  | nil => exact Nat.zero_le _
  | cons _ hne _ _ ih =>
    have hspace := List.length_pos_iff.2 hne
    simp only [List.length_cons, List.length_append]
    omega

/-- A text has hardly more tokens than characters: only in front of the first there may be no space. -/
theorem Written.count_le (h : Written tokens text rest) :
    tokens.length ≤ text.length + 1 := by
  cases tokens with
  | nil => exact Nat.zero_le _
  | cons token tokens =>
    obtain ⟨space, chars, mid, rfl, -, -, hmid⟩ := h
    have hle := hmid.count_le
    simp only [List.length_cons, List.length_append]
    omega

theorem length_le_byteLength (text : List Char) : text.length ≤ byteLength text := by
  induction text with
  | nil => exact Nat.zero_le _
  | cons c text ih =>
    have hpos := c.utf8Size_pos
    rw [byteLength_cons, List.length_cons]
    omega

end

namespace OperatorTree

variable {t : OperatorTree}

/-- All that is known of how the expression is read. -/
structure Readable (t : OperatorTree) : Prop where
  reads : ∀ place, t.ReadsIn place
  starts : ∀ layer ∈ Layer.chains, t.Starts layer
  signed : t.Signed

/-- An expression is readable if it is read at its own layer, with what chains and signs ask for. -/
theorem readable_of_layer
    (h : ReadsAs t.tokens (t.openAt t.layer) (fun c m => t.Denotes c m) t.layer)
    (hstarts : t.layer ∈ Layer.chains → t.Starts t.layer) (hsigned : t.layer = .unary → t.Signed) :
    t.Readable := by
  have hreads : ∀ place, t.ReadsIn place := readsAs_of_layer h
  constructor
  · exact hreads
  · intro layer hlayer
    by_cases hown : t.layer = layer
    · subst hown
      exact hstarts hlayer
    · exact (hreads layer.tighter).starts hown hlayer
  · by_cases hown : t.layer = .unary
    · exact hsigned hown
    · exact (hreads .primary).signed hown

/-- Outside chains and signs that is all. -/
theorem readable_alone (layer : Layer) (hlayer : t.layer = layer)
    (hother : layer ∉ Layer.chains ∧ layer ≠ .unary)
    (h : ReadsAs t.tokens (t.openAt layer) (fun c m => t.Denotes c m) layer) : t.Readable := by
  subst hlayer
  exact readable_of_layer h (fun hchain => absurd hchain hother.1) fun hunary =>
    absurd hunary hother.2

theorem readable_binary {op : BinaryOperator} {l r : OperatorTree} (hl : l.Readable)
    (hr : r.Readable) : (binary op l r).Readable := by
  have hunary : op.layer ≠ .unary := by cases op <;> decide
  have hstarts (hlayer : op.layer ∈ Layer.chains) : (binary op l r).Starts op.layer :=
    starts_binary (hl.starts op.layer hlayer) (hr.reads op.layer.tighter) hlayer
  refine readable_of_layer ?_ hstarts (fun hlayer => absurd hlayer hunary)
  have hown : (binary op l r).layer.rank ≤ op.layer.rank := Nat.le_refl _
  change ReadsAs _ ((binary op l r).openAt op.layer) _ op.layer
  rcases op.layer_cases with hcomparison | hchain
  · have hread := readsAs_comparison hcomparison (hl.reads .range) (hr.reads .range)
    have hopen : (binary op l r).openAt op.layer = (binary op l r).inner :=
      openAt_of_le (by rw [hcomparison]; decide) hown
    rw [hopen, hcomparison]
    exact hread
  · have hread := (hstarts hchain).readsAs hchain
    rw [tokensAt_of_le hown] at hread
    exact hread

/-- Every operator expression is readable. -/
theorem readable (t : OperatorTree) : t.Readable := by
  match t with
  | varRef n => exact readable_alone .primary rfl (by decide) (readsAs_varRef n)
  | integer value h => exact readable_alone .primary rfl (by decide) (readsAs_integer value h)
  | string value => exact readable_alone .primary rfl (by decide) (readsAs_string value)
  | step n => exact readable_alone .primary rfl (by decide) (readsAs_step n)
  | empty => exact readable_alone .primary rfl (by decide) readsAs_empty
  | binary op l r => exact readable_binary (readable l) (readable r)
  | unary op s =>
    have hsigned : (unary op s).Signed := signed_unary (readable s).signed
    have hchain : Layer.unary ∉ Layer.chains := by decide
    exact readable_of_layer hsigned.readsAs (fun h => absurd h hchain) fun _ => hsigned
  | range l r =>
    have hread := readsAs_range ((readable l).reads .additive) ((readable r).reads .additive)
    exact readable_alone .range rfl (by decide) hread
  | conditional c y e =>
    have hread := readsAs_conditional ((readable c).reads .sequence) ((readable y).reads .single)
      ((readable e).reads .single)
    exact readable_alone .single rfl (by decide) hread
  | call n ts =>
    have hargs : ∀ t ∈ ts, t.ReadsIn .single := fun t ht => (readable t).reads .single
    exact readable_alone .primary rfl (by decide) (readsAs_call n hargs)
  | sequence t₁ t₂ ts =>
    have hfirst : t₁.ReadsIn .single := (readable t₁).reads .single
    have hsecond : t₂.ReadsIn .single := (readable t₂).reads .single
    have hrest : ∀ t ∈ ts, t.ReadsIn .single := fun t ht => (readable t).reads .single
    have hitems : ∀ t ∈ t₁ :: t₂ :: ts, t.ReadsIn .single := by
      intro t ht
      simp only [List.mem_cons] at ht
      rcases ht with rfl | rfl | ht
      · exact hfirst
      · exact hsecond
      · exact hrest t ht
    exact readable_alone .sequence rfl (by decide) (readsAs_sequence hitems)

/-! ### Steps

An expression has more tokens than single expressions open inside it at a time, so the steps that the
length of a text allows are enough for every expression printed in it. -/

theorem openAt_le (h : t.inner < t.tokens.length) (place : Layer) :
    t.openAt place ≤ (t.tokensAt place).length := by
  have hprinted : t.tokens.length ≤ (t.tokensAt place).length := by
    unfold tokensAt inPlace
    split
    · exact Nat.le_refl _
    · simp only [List.length_cons, List.length_append]
      omega
  have hopen : t.openAt place ≤ t.inner + 1 := by
    unfold openAt openInPlace openAlone
    repeat' split
    all_goals omega
  omega

theorem innerOfItems_le {ts : List OperatorTree} (h : ∀ t ∈ ts, t.inner < t.tokens.length) :
    innerOfItems ts ≤ (furtherTokens ts).length := by
  induction ts with
  | nil => exact Nat.zero_le _
  | cons t ts ih =>
    have hfirst := openAt_le (h t List.mem_cons_self) .single
    have hrest := ih fun t' ht' => h t' (List.mem_cons_of_mem t ht')
    change max (t.openAt .single) (innerOfItems ts) ≤
      (Token.comma :: (t.tokensAt .single ++ furtherTokens ts)).length
    simp only [List.length_cons, List.length_append]
    omega

theorem inner_lt_length (t : OperatorTree) : t.inner < t.tokens.length := by
  match t with
  | varRef _ | integer .. | string _ | step _ | empty => exact Nat.zero_lt_succ _
  | binary op l r =>
    have hl := openAt_le (inner_lt_length l) op.layer.left
    have hr := openAt_le (inner_lt_length r) op.layer.tighter
    change max (l.openAt op.layer.left) (r.openAt op.layer.tighter) <
      (l.tokensAt op.layer.left ++ .operator op :: r.tokensAt op.layer.tighter).length
    simp only [List.length_cons, List.length_append]
    omega
  | unary op s =>
    have hs := openAt_le (inner_lt_length s) .unary
    exact Nat.lt_succ_of_le hs
  | range l r =>
    have hl := openAt_le (inner_lt_length l) .additive
    have hr := openAt_le (inner_lt_length r) .additive
    change max (l.openAt .additive) (r.openAt .additive) <
      (l.tokensAt .additive ++ .toWord :: r.tokensAt .additive).length
    simp only [List.length_cons, List.length_append]
    omega
  | conditional c y e =>
    have hc := openAt_le (inner_lt_length c) .sequence
    have hy := openAt_le (inner_lt_length y) .single
    have he := openAt_le (inner_lt_length e) .single
    rw [tokensAt_of_le c.layer.rank_le_sequence] at hc
    change max (c.openAt .sequence) (max (y.openAt .single) (e.openAt .single)) <
      (Token.ifWord :: .opening :: (c.tokens ++ .closing :: .thenWord :: (y.tokensAt .single ++
        .elseWord :: e.tokensAt .single))).length
    simp only [List.length_cons, List.length_append]
    omega
  | call n [] => exact Nat.zero_lt_succ _
  | call n (t :: ts) =>
    have hitems : ∀ t' ∈ t :: ts, t'.inner < t'.tokens.length := fun t' _ => inner_lt_length t'
    have hle := innerOfItems_le hitems
    change _ ≤ (Token.comma :: (t.tokensAt .single ++ furtherTokens ts)).length at hle
    change innerOfItems (t :: ts) <
      (Token.localName n :: .opening :: (t.tokensAt .single ++ (furtherTokens ts ++ [Token.closing]))).length
    simp only [List.length_cons, List.length_append, List.length_nil] at hle ⊢
    omega
  | sequence t₁ t₂ ts =>
    have hfirst := openAt_le (inner_lt_length t₁) .single
    have hitems : ∀ t ∈ t₂ :: ts, t.inner < t.tokens.length := fun t _ => inner_lt_length t
    have hle := innerOfItems_le hitems
    change max (t₁.openAt .single) (innerOfItems (t₂ :: ts)) <
      (t₁.tokensAt .single ++ furtherTokens (t₂ :: ts)).length
    have hcomma : 0 < (furtherTokens (t₂ :: ts)).length := Nat.zero_lt_succ _
    have hsome := List.length_pos_iff.2 (t₁.tokensAt_ne_nil .single)
    rw [List.length_append]
    omega

/-! ### The whole text -/

variable {f : Frame} {l l₁ : Place} {saved : List LexicalState} {text space : List Char}

/-- The steps that the text allows are the levels of single expressions inside one another. -/
theorem reads_exprSingle {P : Expr → Prop} (h : Reads f l (singleWithin (f.size + 1)) P l₁) :
    Reads f l exprSingle P l₁ := by
  intro s hs
  have hsteps : s.steps = f.size + 1 := by
    rw [← hs.frame]
    rfl
  have hread := h s hs
  rw [← hsteps] at hread
  exact hread

theorem reads_expectEnd (h : Trivia space) :
    Reads f (.behind saved space) expectEnd (fun _ => True) (.behind saved space) := by
  have hatEnd : Reads f (.behind saved space) atEnd (fun b => b = true) (.behind saved space) := by
    refine reads_scan fun m hstack hrest => ?_
    have hscan : scanTrivia true m.cursor.rest = .found () [] := by
      have hspace : scanTrivia true (space ++ []) = .found () [] := scanTrivia_append h rfl
      rw [List.append_nil] at hspace
      rw [hrest]
      exact hspace
    have hskip : Scan.lexeme (scanTrivia true) m = .ok (some ()) (m.moveTo []) :=
      Scan.lexeme_found hscan
    refine ⟨true, (m.moveTo []).moveTo m.cursor.rest, ?_, rfl, ⟨rfl, rfl⟩, hrest, hstack, fun _ h => nomatch h⟩
    unfold Scan.atEnd
    rw [hskip]
    rfl
  refine reads_bind hatEnd fun b hb => ?_
  rw [hb]
  exact reads_pure trivial

theorem exists_of_sequence (h : t.layer = .sequence) : ∃ t₁ t₂ ts, t = sequence t₁ t₂ ts := by
  cases t with
  | sequence t₁ t₂ ts => exact ⟨t₁, t₂, ts, rfl⟩
  | binary op => cases op <;> cases h
  | _ => cases h

theorem readsItem_exprSingle {t : OperatorTree} (hopens : t.openAt .single ≤ f.size + 1)
    (hdepth : f.depth + t.openAt .single ≤ f.maxDepth) : ReadsItem f saved exprSingle t := by
  intro text rest bound hsize htext hrest hbound
  have hitem : ReadsItem f saved (singleWithin (f.size + 1)) t :=
    (t.readable.reads .single).item hopens hdepth
  exact reads_exprSingle (hitem text rest bound hsize htext hrest hbound)

/-- An expression printed as a whole text is read up to the space behind it. -/
theorem reads_printed {t : OperatorTree} (hspace : Trivia space) (htext : Written t.tokens text space)
    (hsize : text.length ≤ f.size) (hdepth : f.depth + t.openSingles ≤ f.maxDepth) :
    Reads f (.before saved text) (expr exprSingle) (t.Denotes f.context f.module)
      (.behind saved space) := by
  have hend : Behind (Layer.sequence.rank + 1) space := behind_space hspace
  have hcount := htext.count_le
  have htokens := openAt_le t.inner_lt_length .sequence
  rw [tokensAt_of_le t.layer.rank_le_sequence] at htokens
  have hopens : t.openAt .sequence ≤ f.size + 1 := by omega
  have hlimit : f.depth + t.openAt .sequence ≤ f.maxDepth := hdepth
  by_cases hlayer : t.layer = .sequence
  · obtain ⟨t₁, t₂, ts, rfl⟩ := exists_of_sequence hlayer
    have hopen : (sequence t₁ t₂ ts).openAt .sequence = innerOfItems (t₁ :: t₂ :: ts) := rfl
    have hitems : ∀ t ∈ t₁ :: t₂ :: ts, ReadsItem f saved exprSingle t := by
      intro t ht
      have hle := openAt_le_items ht
      exact readsItem_exprSingle (by omega) (by omega)
    exact reads_sequence hitems hsize htext hend (Nat.lt_succ_self _)
  · have hsingle : t.layer.rank ≤ Layer.single.rank := by
      have hle := t.layer.rank_le_sequence
      have hne : t.layer.rank ≠ Layer.sequence.rank := fun h => hlayer (Layer.rank_inj h)
      change _ ≤ 11 at hle
      change _ ≠ 11 at hne
      change _ ≤ 10
      omega
    have hopen : t.openAt .single = t.openAt .sequence := (openAt_sequence hlayer).symm
    have hitem : ReadsItem f saved exprSingle t :=
      readsItem_exprSingle (by rw [hopen]; exact hopens) (by rw [hopen]; exact hlimit)
    rw [← tokensAt_of_le hsingle] at htext
    have hread := hitem text space _ hsize htext hend (by decide)
    exact reads_expr hread (hend.declines (Nat.lt_succ_self _) Terminal.comma List.mem_cons_self)

end OperatorTree

section

variable {f : Frame} {saved : List LexicalState} {text rest : List Char} {P : Expr → Prop}

/-- A value alone is an expression: no keyword and no sign stands in front of it, and no operator behind. -/
theorem reads_expr_of_value (hdepth : f.depth < f.maxDepth)
    (hkeywords : ∀ r ∈ keywordRules, Declines .expression text r)
    (hsigns : ∀ r ∈ signRules, Declines .expression text r)
    (hrest : Behind (Layer.sequence.rank + 1) rest)
    (h : Reads { f with depth := f.depth + 1 } (.before saved text) (valueExpr (singleWithin f.size)) P
      (.behind saved rest)) : Reads f (.before saved text) (expr exprSingle) P (.behind saved rest) := by
  have hor : Reads { f with depth := f.depth + 1 } (.before saved text) (orExpr (singleWithin f.size)) P
      (.behind saved rest) :=
    @Layer.reads_looser _ _ _ _ _ _ .primary .or _ hrest (by decide) (by decide) (by decide)
      (fun _ => hsigns) h
  have hsingle : Reads f (.before saved text) exprSingle P (.behind saved rest) :=
    OperatorTree.reads_exprSingle (reads_nested hdepth (reads_singleOf hkeywords hor))
  exact reads_expr hsingle (hrest.declines (Nat.lt_succ_self _) Terminal.comma List.mem_cons_self)

/-- What stops the reading of a value stops that of the expression that begins with it. -/
theorem stops_expr_of_value {E : Stop → Prop} (hdepth : f.depth < f.maxDepth)
    (hkeywords : ∀ r ∈ keywordRules, Declines .expression text r)
    (hsigns : ∀ r ∈ signRules, Declines .expression text r)
    (h : Stops { f with depth := f.depth + 1 } (.before saved text) (valueExpr (singleWithin f.size)) E) :
    Stops f (.before saved text) (expr exprSingle) E := by
  have hor : Stops { f with depth := f.depth + 1 } (.before saved text) (orExpr (singleWithin f.size)) E :=
    stops_orExpr hsigns h
  have hsingle : Stops f (.before saved text) exprSingle E :=
    stops_exprSingle hdepth ((passes_singleOf hkeywords).stops hor)
  exact hsingle.bind

end

/-- What the text allows at its beginning. -/
def wholeFrame (text : String) (config : Config) : Frame := (ParserState.ofText text config).frame

/-- What is read up to space at the end is what the text is parsed to. -/
theorem parseExpression_of_reads {text : String} {config : Config} {space : List Char}
    {P : Expr → Prop} (hspace : Trivia space)
    (h : Reads (wholeFrame text config) (.before [] text.toList) (expr exprSingle) P
      (.behind [] space)) :
    ∃ e, parseExpression text config = .ok e ∧ P e := by
  have hunit : Reads (wholeFrame text config) (.before [] text.toList) expressionUnit P
      (.behind [] space) := by
    refine reads_bind h fun e he => ?_
    exact reads_bind (OperatorTree.reads_expectEnd hspace) fun _ _ => reads_pure he
  have hs : (ParserState.ofText text config).At (wholeFrame text config) (.before [] text.toList) :=
    ⟨rfl, rfl, rfl, fun _ h => nomatch h⟩
  obtain ⟨e, s', hrun, he, -⟩ := hunit _ hs
  refine ⟨e, ?_, he⟩
  unfold parseExpression
  rw [hrun]

/-- What stops the reading of an expression stops the parse of the text. -/
theorem parseExpression_of_stops {text : String} {config : Config} {E : Stop → Prop}
    (h : Stops (wholeFrame text config) (.before [] text.toList) (expr exprSingle) E) :
    ∃ stop s, parseExpression text config = .error (parseError stop s) ∧ E stop := by
  have hs : (ParserState.ofText text config).At (wholeFrame text config) (.before [] text.toList) :=
    ⟨rfl, rfl, rfl, fun _ h => nomatch h⟩
  obtain ⟨stop, s, hrun, hstop⟩ := h.bind _ hs
  refine ⟨stop, s, ?_, hstop⟩
  unfold parseExpression
  rw [show expressionUnit _ = _ from hrun]

theorem length_le_size (text : String) (config : Config) :
    text.toList.length ≤ (wholeFrame text config).size :=
  length_le_byteLength text.toList

/-- Every printed operator expression is parsed back, up to where its nodes begin, whatever extensions
are on, if as many single expressions may be open at a time as it opens. -/
theorem printed_operator_tree_is_parsed_back (t : OperatorTree) (text : String) (config : Config)
    (hprints : t.Prints text.toList) (hdepth : t.openSingles ≤ config.maxDepth) :
    ∃ e, parseExpression text config = .ok e ∧
      t.Denotes (.ofConfig config) (.ofLocation? config.sourceUri) e := by
  obtain ⟨space, hspace, htext⟩ := hprints
  have hsize : text.toList.length ≤ (wholeFrame text config).size := length_le_size text config
  have hdepth' : (wholeFrame text config).depth + t.openSingles ≤ (wholeFrame text config).maxDepth := by
    change 0 + t.openSingles ≤ config.maxDepth
    omega
  exact parseExpression_of_reads hspace (OperatorTree.reads_printed hspace htext hsize hdepth')

/-- The tree of `$x - for div 1`: a keyword that stands as a name. -/
def OperatorTree.differenceOfNames : OperatorTree :=
  .binary .minus (.varRef ⟨['x'], by decide⟩)
    (.binary .divide (.step ⟨"for".toList, by decide⟩) (.integer 1 (by decide)))

theorem difference_of_names_is_parsed_back :
    OperatorTree.differenceOfNames.Prints "$x - for div 1".toList ∧
      OperatorTree.differenceOfNames.openSingles ≤ Config.standard.maxDepth ∧
      ∃ e, parseExpression "$x - for div 1" .standard = .ok e ∧
        OperatorTree.differenceOfNames.Denotes (.ofConfig .standard) (.ofLocation? none) e := by
  have hblank : Trivia [' '] := .blank ' ' (by decide) .nil
  have hsome : [' '] ≠ [] := by decide
  have hone : Spread [.integer 1] [' ', '1'] [] :=
    @Spread.cons _ _ [' '] ['1'] _ _ hblank hsome
      ⟨by decide, List.forall_mem_singleton.2 (by decide), by decide⟩ (.nil [])
  have hdiv := @Spread.cons (.operator .divide) _ [' '] "div".toList _ _ hblank hsome
    ⟨"div", by decide, rfl⟩ hone
  have hfor := @Spread.cons (.name ⟨"for".toList, by decide⟩) _ [' '] "for".toList _ _ hblank hsome rfl
    hdiv
  have hminus := @Spread.cons (.operator .minus) _ [' '] ['-'] _ _ hblank hsome
    ⟨"-", by decide, rfl⟩ hfor
  have hprints : OperatorTree.differenceOfNames.Prints "$x - for div 1".toList :=
    ⟨[], .nil, [], ['$', 'x'], _, by decide, .nil, ⟨[], .nil, rfl⟩, hminus⟩
  have hdepth : OperatorTree.differenceOfNames.openSingles ≤ Config.standard.maxDepth := by decide
  exact ⟨hprints, hdepth, printed_operator_tree_is_parsed_back _ _ _ hprints hdepth⟩

end XQuerySyntax
