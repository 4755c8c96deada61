import XQuerySyntax.Proofs.RoundTrip.Primary

/-! Operator expressions are read as they are printed. Every form is read at its own layer, given that
its operands are read in their places. Chains need more: their left operand may be a chain of the same
layer, which the parser goes on with and does not begin anew; so do signs in front of one another. -/

namespace XQuerySyntax

open XQuerySyntax.Parser Grammar Glimpse

/-! ### Tables of operators -/

/-- The operators that are tried behind an operand of a layer. -/
def Layer.table : Layer → OperatorTable
  | or => .disjunction
  | and => .conjunction
  | comparison => .comparison
  | additive => .additive
  | multiplicative => .multiplicative
  | union => .union
  | intersect => .intersection
  | _ => []

/-- The table finds an operator by its spelling: no rule in front of its own takes the spelling. -/
def finds (spelling : String) (op : BinaryOperator) : OperatorTable → Bool
  | [] => false
  | (r, op') :: table =>
    (IsFixed .operator r spelling && r.next = .goto .expression && op' = op) ||
      (Scan.declines .operator r (followingView spelling) && finds spelling op table)

/-- Every operator is found in the table of its layer, however it is spelled. -/
theorem finds_operator : BinaryOperator.all.all fun op =>
    op.spellings.all fun spelling => finds spelling op op.layer.table := by
  rfl

theorem reads_found {f : Frame} {saved : List LexicalState} {text rest : List Char} {spelling : String}
    {op : BinaryOperator} {table : OperatorTable} (h : finds spelling op table)
    (hview : Shows true (followingView spelling) text)
    (htake : ∀ r, IsFixed .operator r spelling → Takes .operator text r rest []) :
    Reads f (.behind saved text) (eatFirst table) (fun o => o = some op)
      ⟨rest, ⟨.expression, saved⟩, some []⟩ := by
  induction table with
  | nil => cases h
  | cons entry table ih =>
    obtain ⟨r, op'⟩ := entry
    simp only [finds, Bool.or_eq_true, Bool.and_eq_true, decide_eq_true_eq] at h
    rcases h with ⟨⟨hfixed, hnext⟩, rfl⟩ | ⟨hdecline, hfound⟩
    · have hplace : (⟨.operator, saved⟩ : StateStack).apply r.next = ⟨.expression, saved⟩ := by
        rw [hnext]
        rfl
      have heat : Reads f (.behind saved text) (eatFirst ((r, op') :: table)) (fun o => o = some op')
          ⟨rest, (⟨.operator, saved⟩ : StateStack).apply r.next, some []⟩ :=
        reads_ifEat (htake r hfixed) (reads_pure rfl)
      rw [hplace] at heat
      exact heat
    · exact reads_ifEat_declined (declines_of_view hdecline hview) (ih hfound)

namespace OperatorTree

variable {f : Frame} {saved : List LexicalState} {text rest : List Char} {bound n : Nat}
  {t l r : OperatorTree} {ts : List OperatorTree} {tokens : List Token}

/-! ### Sequences -/

theorem reads_sequence {t₁ t₂ : OperatorTree} {p : Parser Expr}
    (hitems : ∀ t ∈ t₁ :: t₂ :: ts, ReadsItem f saved p t) (hsize : text.length ≤ f.size)
    (htext : Written (sequence t₁ t₂ ts).tokens text rest) (hrest : Behind bound rest)
    (hbound : Layer.sequence.rank < bound) :
    Reads f (.before saved text) (expr p) ((sequence t₁ t₂ ts).Denotes f.context f.module)
      (.behind saved rest) := by
  obtain ⟨mid, hfirst, hmore⟩ : ∃ mid, Written (t₁.tokensAt .single) text mid ∧
      Spread (furtherTokens (t₂ :: ts)) mid rest := htext.append (t₁.tokensAt_ne_nil _)
  obtain ⟨bound', hmid, hbound'⟩ := behind_further hmore hrest (Nat.lt_trans (by decide) hbound)
  have hle := hfirst.length_le
  have hread : Reads f (.before saved text) p (t₁.Denotes f.context f.module)
      (.behind saved mid) :=
    hitems t₁ List.mem_cons_self text mid bound' hsize hfirst hmid hbound'
  have htail : Reads f (.behind saved mid) (many (whenEats Terminal.comma p))
      (DenotesAll f.context f.module (t₂ :: ts)) (.behind saved rest) := by
    have hfurther : ∀ t ∈ t₂ :: ts, ReadsItem f saved p t :=
      fun t ht => hitems t (List.mem_cons_of_mem t₁ ht)
    exact reads_many (reads_further hfurther (by omega) hmore hrest hbound (by omega))
  -- The comma is looked for before the other items are read.
  obtain ⟨text', -, -, hcomma⟩ := (hmore.written (List.cons_ne_nil _ _)).takes .operator Terminal.comma
    rfl (by rfl) hrest.ends
  refine reads_bind hread fun first hfirst => ?_
  apply reads_unlessPeek hcomma
  refine reads_bind (reads_forget htail) fun es hes => ?_
  obtain ⟨second, others, rfl, hsecond, hothers⟩ := hes
  refine reads_weaken (reads_node _ _) fun e he => ?_
  exact ⟨_, first, second, others, he, hfirst, hsecond, hothers⟩

theorem readsAs_sequence {t₁ t₂ : OperatorTree} (h : ∀ t ∈ t₁ :: t₂ :: ts, t.ReadsIn .single) :
    ReadsAs (sequence t₁ t₂ ts).tokens (innerOfItems (t₁ :: t₂ :: ts))
      (fun c m => (sequence t₁ t₂ ts).Denotes c m) .sequence := by
  intro n f saved text rest bound hopens hdepth hsize htext hrest hbound
  exact reads_sequence (readsItems h hopens hdepth) hsize htext hrest hbound

/-! ### Conditionals -/

/-- An expression between two tokens: what stands behind it, and how it is read. -/
theorem ReadsIn.between {token : Token} {place : Layer} (h : t.ReadsIn place) (n : Nat) (f : Frame)
    (saved : List LexicalState) (hopens : t.openAt place ≤ n)
    (hdepth : f.depth + t.openAt place ≤ f.maxDepth) (hsize : text.length ≤ f.size)
    (htext : Written (t.tokensAt place ++ token :: tokens) text rest) (hends : endsToken rest) (htoken : token ∈ Token.following)
    (hlast : tokens ≠ [] ∨ ∀ spelling ∈ token.spellings, spelling = ")" ∨ spelling = ",")
    (hplace : place.rank < token.looseness) :
    ∃ mid, mid.length ≤ text.length ∧ Written (t.tokensAt place) text mid ∧
      Spread (token :: tokens) mid rest ∧ Behind token.looseness mid ∧
        Reads f (.before saved text) (place.parser n) (t.Denotes f.context f.module)
          (.behind saved mid) := by
  obtain ⟨mid, hwritten, hmore⟩ := htext.append (t.tokensAt_ne_nil place)
  have hmid := hmore.behind htoken hends hlast
  have hread := h n f saved text mid _ hopens hdepth hsize hwritten hmid hplace
  exact ⟨mid, hwritten.length_le, hwritten, hmore, hmid, hread⟩

variable {c y e : OperatorTree}

/-- A conditional behind its keyword. -/
theorem reads_conditional (hc : c.ReadsIn .sequence) (hy : y.ReadsIn .single) (he : e.ReadsIn .single)
    (hopens : (conditional c y e).inner ≤ n)
    (hdepth : f.depth + (conditional c y e).inner ≤ f.maxDepth) (hsize : text.length ≤ f.size)
    (htext : Written (.opening :: (c.tokensAt .sequence ++ .closing :: .thenWord ::
      (y.tokensAt .single ++ .elseWord :: e.tokensAt .single))) text rest)
    (hrest : Behind bound rest) (hbound : Layer.single.rank < bound) (offset : Nat) :
    Reads f (.before saved text) (Grammar.conditional (singleWithin n) offset)
      ((conditional c y e).Denotes f.context f.module) (.behind saved rest) := by
  have hends : endsToken rest := hrest.ends
  have hinner : (conditional c y e).inner =
      max (c.openAt .sequence) (max (y.openAt .single) (e.openAt .single)) := rfl
  obtain ⟨inside, hinside, hle₁, hopen⟩ :=
    htext.takes .expression Terminal.lparen rfl (by rfl) hends
  obtain ⟨close, hle₂, -, hclosing, -, hcondition⟩ := hc.between n f saved
    (by omega) (by omega) (by omega) (hinside.written (by simp)) hends (by simp [Token.following]) (.inl (by simp))
    (by decide)
  obtain ⟨after, hafter, hle₃, hclose⟩ :=
    (hclosing.written (by simp)).takes .operator Terminal.rparen rfl (by rfl) hends
  obtain ⟨yes, hyes, hle₄, hthen⟩ :=
    (hafter.written (by simp)).takes .operator Terminal.thenBranch rfl (by rfl) hends
  obtain ⟨behind, hle₅, -, hmore, -, hfirst⟩ := hy.between n f saved
    (by omega) (by omega) (by omega) (hyes.written (by simp)) hends (by simp [Token.following])
    (.inl (e.tokensAt_ne_nil _)) (by decide)
  obtain ⟨no, hno, hle₆, helse⟩ :=
    (hmore.written (by simp)).takes .operator Terminal.elseBranch rfl (by rfl) hends
  have hsecond := he n f saved no rest bound (by omega) (by omega) (by omega)
    (hno.written (e.tokensAt_ne_nil _)) hrest hbound
  have hparen : Reads f (.before saved text) (parenthesizedExpr (singleWithin n))
      (c.Denotes f.context f.module) (.behind saved after) := by
    refine reads_bind (reads_expect hopen) fun _ _ => ?_
    refine reads_bind (reads_forget hcondition) fun condition hcondition => ?_
    refine reads_bind (reads_expect hclose) fun _ _ => ?_
    exact reads_forget (reads_pure hcondition)
  refine reads_bind hparen fun condition hcondition => ?_
  refine reads_bind (reads_expect hthen) fun _ _ => ?_
  refine reads_bind (reads_forget hfirst) fun first hfirst => ?_
  refine reads_bind (reads_expect helse) fun _ _ => ?_
  refine reads_bind (reads_forget hsecond) fun second hsecond => ?_
  refine reads_weaken (reads_node _ offset) fun tree htree => ?_
  exact ⟨offset, condition, first, second, htree, hcondition, hfirst, hsecond⟩

theorem readsAs_conditional (hc : c.ReadsIn .sequence) (hy : y.ReadsIn .single)
    (he : e.ReadsIn .single) :
    ReadsAs (conditional c y e).tokens ((conditional c y e).inner + 1)
      (fun s m => (conditional c y e).Denotes s m) .single := by
  intro n f saved text rest bound hopens hdepth hsize htext hrest hbound
  have hends : endsToken rest := hrest.ends
  obtain ⟨n, rfl⟩ := Nat.exists_eq_add_of_le hopens
  have hlimit : f.depth < f.maxDepth := by omega
  have hn : (conditional c y e).inner + 1 + n = ((conditional c y e).inner + n) + 1 := by omega
  have hbegins : Begins [conditionalView] text := htext.begins_conditional hends
  have hother := hbegins.of_rules rfl conditionalRules_decline
  have hclause : ∀ r ∈ flworRules, Declines .expression text r :=
    fun r hr => hother r (List.mem_append_left _ hr)
  have htokens : (conditional c y e).tokens = .ifWord :: .opening ::
      (c.tokensAt .sequence ++ .closing :: .thenWord ::
        (y.tokensAt .single ++ .elseWord :: e.tokensAt .single)) := by
    rw [tokensAt_of_le c.layer.rank_le_sequence]
    rfl
  rw [htokens] at htext
  obtain ⟨space, chars, mid, rfl, hspace, ⟨spelling, hmem, rfl⟩, hmid⟩ := htext
  obtain rfl := List.mem_singleton.1 hmem
  obtain ⟨paren, hparen, hshorter, hif⟩ := takes_conditional hspace hmid hends
  have hlength : paren.length ≤ f.size := by
    simp only [List.length_append] at hsize
    omega
  rw [hn]
  -- Everything inside is read one level deeper.
  apply reads_nested hlimit
  refine reads_bind (reads_flwor_declined hclause) fun o ho => ?_
  rw [ho]
  apply reads_ifEat_declined (hother Terminal.someQuantifier (by simp))
  apply reads_ifEat_declined (hother Terminal.everyQuantifier (by simp))
  apply reads_ifEat_declined (hother Terminal.switch (by simp))
  apply reads_ifEat_declined (hother Terminal.typeswitch (by simp))
  apply reads_ifEat hif
  refine reads_bind reads_start fun offset _ => ?_
  apply reads_forget
  have hdepth' : f.depth + 1 + (conditional c y e).inner ≤ f.maxDepth := by omega
  exact reads_conditional (f := { f with depth := f.depth + 1 }) hc hy he (Nat.le_add_right _ _) hdepth'
    hlength hparen hrest hbound offset

/-! ### Operators -/

variable {op : BinaryOperator}

/-- Behind an operand the operator that comes next is found. -/
theorem reads_operator (htext : Spread (.operator op :: tokens) text rest) (hne : tokens ≠ [])
    (hends : endsToken rest) :
    ∃ text', Spread tokens text' rest ∧ text'.length < text.length ∧
      Reads f (.behind saved text) (eatFirst op.layer.table) (fun o => o = some op)
        ⟨text', ⟨.expression, saved⟩, some []⟩ := by
  cases htext with
  | @cons _ _ space chars mid _ hspace hsome hchars hmid =>
    obtain ⟨spelling, hmem, rfl⟩ := hchars.spelling
      (Token.spellings_ne_nil (Token.operator_mem_following op))
    have hfound : finds spelling op op.layer.table :=
      List.all_eq_true.1 (List.all_eq_true.1 finds_operator op op.mem_all) spelling hmem
    have hview := shows_following hmem hspace hsome hmid hends (.inl hne)
    have htake : ∀ r, IsFixed .operator r spelling →
        Takes .operator (space ++ (spelling.toList ++ mid)) r mid [] :=
      fun r hr => takes_fixed hr hmem hspace (hmid.ends hends)
    exact ⟨mid, hmid, length_lt_of_fixed hmem, reads_found hfound hview htake⟩

/-- A comparison with whatever is read in front of its operator. -/
theorem reads_comparison {mid : List Char} {P : Expr → Prop} (hop : op.layer = .comparison)
    (hleft : Reads f (.before saved text) (ftContainsExpr (singleWithin n)) P (.behind saved mid))
    (hr : r.ReadsIn .range) (hopens : r.openAt .range ≤ n)
    (hdepth : f.depth + r.openAt .range ≤ f.maxDepth) (hsize : mid.length ≤ f.size)
    (hmore : Spread (.operator op :: r.tokensAt .range) mid rest) (hrest : Behind bound rest)
    (hbound : Layer.comparison.rank < bound) :
    Reads f (.before saved text) (comparisonExpr (singleWithin n))
      (fun e => ∃ offset left right, e = .mk (.binary op left right) offset f.module ∧ P left ∧
        r.Denotes f.context f.module right) (.behind saved rest) := by
  have hends : endsToken rest := hrest.ends
  obtain ⟨text', htext', hlt, hoperator⟩ :=
    reads_operator (f := f) hmore (r.tokensAt_ne_nil _) hends
  rw [hop] at hoperator
  have hright := hr n f saved text' rest bound hopens hdepth (by omega)
    (htext'.written (r.tokensAt_ne_nil _)) hrest (Nat.lt_trans (by decide) hbound)
  refine reads_bind hleft fun left hleft => ?_
  refine reads_bind hoperator fun o ho => ?_
  rw [ho]
  refine reads_bind reads_start fun offset _ => ?_
  refine reads_bind (reads_forget hright) fun right hright => ?_
  refine reads_weaken (reads_node _ offset) fun e he => ?_
  exact ⟨offset, left, right, he, hleft, hright⟩

/-- A comparison has one operator at most, and its operands are of tighter layers. -/
theorem readsAs_comparison (hop : op.layer = .comparison) (hl : l.ReadsIn .range)
    (hr : r.ReadsIn .range) :
    ReadsAs (binary op l r).tokens (binary op l r).inner (fun c m => (binary op l r).Denotes c m)
      .comparison := by
  intro n f saved text rest bound hopens hdepth hsize htext hrest hbound
  have hends : endsToken rest := hrest.ends
  have hinner : (binary op l r).inner = max (l.openAt .range) (r.openAt .range) := by
    change max (l.openAt op.layer.left) (r.openAt op.layer.tighter) = _
    rw [hop]
    rfl
  have htokens : (binary op l r).tokens = l.tokensAt .range ++ .operator op :: r.tokensAt .range := by
    change l.tokensAt op.layer.left ++ .operator op :: r.tokensAt op.layer.tighter = _
    rw [hop]
    rfl
  have hlayer : Layer.range.rank < (Token.operator op).looseness := by
    change _ < op.layer.rank
    rw [hop]
    decide
  rw [htokens] at htext
  obtain ⟨mid, hle, -, hmore, -, hleft⟩ := hl.between n f saved (by omega) (by omega) hsize htext hends
    (Token.operator_mem_following op) (.inl (r.tokensAt_ne_nil _)) hlayer
  exact reads_comparison hop hleft hr (by omega) (by omega) (by omega) hmore hrest hbound

/-- A range with whatever is read in front of its word. -/
theorem reads_range {mid : List Char} {P : Expr → Prop}
    (hleft : Reads f (.before saved text) (additiveExpr (singleWithin n)) P (.behind saved mid))
    (hr : r.ReadsIn .additive) (hopens : r.openAt .additive ≤ n)
    (hdepth : f.depth + r.openAt .additive ≤ f.maxDepth) (hsize : mid.length ≤ f.size)
    (hmore : Spread (.toWord :: r.tokensAt .additive) mid rest) (hrest : Behind bound rest)
    (hbound : Layer.range.rank < bound) :
    Reads f (.before saved text) (ftContainsExpr (singleWithin n))
      (fun e => ∃ offset first last, e = .mk (.range first last) offset f.module ∧ P first ∧
        r.Denotes f.context f.module last) (.behind saved rest) := by
  have hends : endsToken rest := hrest.ends
  obtain ⟨text', htext', hlt, hto⟩ :=
    (hmore.written (by simp)).takes .operator Terminal.toRange rfl (by rfl) hends
  have hright := hr n f saved text' rest bound hopens hdepth (by omega)
    (htext'.written (r.tokensAt_ne_nil _)) hrest (Nat.lt_trans (by decide) hbound)
  apply reads_ftContainsExpr _ (hrest.declines hbound)
  refine reads_bind hleft fun left hleft => ?_
  apply reads_ifEat hto
  refine reads_bind reads_start fun offset _ => ?_
  have hform : Reads f (.before saved text')
      (do return ExprKind.range left (← additiveExpr (singleWithin n)))
      (fun kind => ∃ right, kind = .range left right ∧ r.Denotes f.context f.module right)
      (.behind saved rest) :=
    reads_bind hright fun right hright => reads_pure ⟨right, rfl, hright⟩
  refine reads_bind (reads_forget hform) fun kind hkind => ?_
  obtain ⟨right, rfl, hright⟩ := hkind
  refine reads_weaken (reads_node _ offset) fun e he => ?_
  exact ⟨offset, left, right, he, hleft, hright⟩

theorem readsAs_range (hl : l.ReadsIn .additive) (hr : r.ReadsIn .additive) :
    ReadsAs (range l r).tokens (range l r).inner (fun c m => (range l r).Denotes c m) .range := by
  intro n f saved text rest bound hopens hdepth hsize htext hrest hbound
  have hends : endsToken rest := hrest.ends
  have hinner : (range l r).inner = max (l.openAt .additive) (r.openAt .additive) := rfl
  obtain ⟨mid, hle, -, hmore, -, hleft⟩ := hl.between n f saved (by omega) (by omega) hsize htext
    hends (by simp [Token.following]) (.inl (r.tokensAt_ne_nil _)) (by decide)
  exact reads_range hleft hr (by omega) (by omega) (by omega) hmore hrest hbound

end OperatorTree

end XQuerySyntax
