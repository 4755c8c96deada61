import XQuerySyntax.Proofs.RoundTrip.Climb

/-! Primary expressions are read as they are printed, and so are items with commas between them. -/

namespace XQuerySyntax

open XQuerySyntax.Parser Grammar Glimpse

/-- The expression is read in a place. -/
def OperatorTree.ReadsIn (t : OperatorTree) (place : Layer) : Prop :=
  ReadsAs (t.tokensAt place) (t.openAt place) (fun c m => t.Denotes c m) place

theorem SimpleName.isLexical (n : SimpleName) : QName.isLexical ⟨none, n.text, none⟩ := by
  simp [QName.isLexical, text, n.isName]

namespace OperatorTree

variable {f : Frame} {saved : List LexicalState} {text rest : List Char} {place : Layer}

theorem settled_of_subset {views : List (List Glimpse)} (h : views ⊆ primaryViews) :
    views.all isSettled :=
  List.all_eq_true.2 fun v hv => List.all_eq_true.1 (Layer.views_settled .primary) v (h hv)

/-! ### Primary expressions -/

theorem readsAs_varRef (n : SimpleName) :
    ReadsAs [.varRef n] 0 (fun c m => (varRef n).Denotes c m) .primary := by
  intro _ f saved text rest bound _ _ _ htext hrest hbound
  have hbegins : Begins variableViews text := htext.begins_variable hrest
  have hvalues := Begins.values (hbegins.weaken variableViews_subset)
  have hliteral := hbegins.of_rules (settled_of_subset variableViews_subset) variableRules_decline
  obtain ⟨space, chars, mid, rfl, hspace, hchars, hmid⟩ := htext
  cases hmid
  have htake := takes_variable hspace hchars hrest.ends
  apply reads_valueExpr_primary (fun r hr => hvalues r (List.mem_append_right _ hr))
  · have hname : QName.ResolvesIn f.context none ⟨none, n.text, none⟩ := ⟨n.isLexical, rfl⟩
    exact reads_primary_variable hname (hliteral Terminal.numericLiteral (by simp))
      (hliteral Terminal.stringLiteral (by simp)) htake
  · exact fun _ he => not_step (varRef n) (c := f.context) he
  · exact hrest.declines hbound

theorem readsAs_integer (value : Nat) (hvalue : value ≤ Numeral.maxInteger) :
    ReadsAs [.integer value] 0 (fun c m => (integer value hvalue).Denotes c m) .primary := by
  intro _ f saved text rest bound _ _ _ htext hrest hbound
  have hbegins : Begins Layer.primary.views text := begins (integer value hvalue) htext hrest
  have hvalues := hbegins.values
  obtain ⟨space, chars, mid, rfl, hspace, hchars, hmid⟩ := htext
  cases hmid
  have htake := takes_integer hvalue hspace hchars hrest.ends
  apply reads_valueExpr_primary (fun r hr => hvalues r (List.mem_append_right _ hr))
  · exact reads_primary_number htake
  · exact fun _ he => not_step (integer value hvalue) (c := f.context) he
  · exact hrest.declines hbound

theorem readsAs_string (value : String) :
    ReadsAs [.string value] 0 (fun c m => (string value).Denotes c m) .primary := by
  intro _ f saved text rest bound _ _ _ htext hrest hbound
  have hbegins : Begins stringViews text := htext.begins_string
  have hvalues := Begins.values (hbegins.weaken stringViews_subset)
  have hliteral := hbegins.of_rules (settled_of_subset stringViews_subset) stringRules_decline
  obtain ⟨space, chars, mid, rfl, hspace, hchars, hmid⟩ := htext
  cases hmid
  have htake := takes_string hspace hchars hrest.ends
  apply reads_valueExpr_primary (fun r hr => hvalues r (List.mem_append_right _ hr))
  · exact reads_primary_string (hliteral Terminal.numericLiteral (by simp)) htake
  · exact fun _ he => not_step (string value) (c := f.context) he
  · exact hrest.declines hbound

theorem readsAs_step (n : SimpleName) :
    ReadsAs [.name n] 0 (fun c m => (step n).Denotes c m) .primary := by
  intro _ f saved text rest bound _ _ _ htext hrest hbound
  have hbegins : Begins nameViews text := htext.begins_name hrest
  have hvalues := Begins.values (hbegins.weaken nameViews_subset)
  have hnames := hbegins.of_rules (settled_of_subset nameViews_subset) stepRules_decline
  obtain ⟨space, chars, mid, rfl, hspace, rfl, hmid⟩ := htext
  cases hmid
  apply reads_valueExpr_step (fun r hr => hvalues r (List.mem_append_right _ hr))
  · exact fun r hr => hnames r (List.mem_append_left _ hr)
  · exact fun r hr => hnames r (List.mem_append_right _ hr)
  · exact takes_name hspace hrest.ends
  · exact hrest.declines hbound

theorem readsAs_empty :
    ReadsAs [.opening, .closing] 0 (fun c m => empty.Denotes c m) .primary := by
  intro _ f saved text rest bound _ _ _ htext hrest hbound
  have hends : endsToken rest := hrest.ends
  have hbegins : Begins [parenView] text := htext.begins_paren (List.cons_ne_nil _ _) hends
  have hvalues := Begins.values (hbegins.weaken parenView_subset)
  have hliteral := hbegins.of_rules rfl parenRules_decline
  obtain ⟨inside, hinside, -, hopen⟩ :=
    htext.takes .expression Terminal.lparen rfl (by rfl) hends
  obtain ⟨text', hnil, -, hclose⟩ :=
    (hinside.written (by simp)).takes .expression Terminal.rparen rfl (by rfl) hends
  cases hnil
  apply reads_valueExpr_primary (fun r hr => hvalues r (List.mem_append_right _ hr))
  · apply reads_primary_paren (hliteral Terminal.numericLiteral (by simp))
      (hliteral Terminal.stringLiteral (by simp)) (hliteral Terminal.variableReference (by simp)) hopen
    exact reads_parenthesized_empty hclose
  · exact fun _ he => not_step empty (c := f.context) he
  · exact hrest.declines hbound

/-! ### Items with commas between them -/

/-- The parser reads the expression as an item of a list. -/
def ReadsItem (f : Frame) (saved : List LexicalState) (p : Parser Expr) (t : OperatorTree) : Prop :=
  ∀ (text rest : List Char) (bound : Nat), text.length ≤ f.size →
    Written (t.tokensAt .single) text rest → Behind bound rest → Layer.single.rank < bound →
      Reads f (.before saved text) p (t.Denotes f.context f.module) (.behind saved rest)

variable {t : OperatorTree} {ts : List OperatorTree} {n : Nat} {p : Parser Expr} {bound : Nat}

theorem ReadsIn.item (h : t.ReadsIn .single) (hopens : t.openAt .single ≤ n)
    (hdepth : f.depth + t.openAt .single ≤ f.maxDepth) : ReadsItem f saved (singleWithin n) t :=
  fun text rest bound hsize htext hrest hbound =>
    h n f saved text rest bound hopens hdepth hsize htext hrest hbound

/-- No expression is taken for the mark of an argument left open. -/
theorem ReadsItem.argument (h : ReadsItem f saved p t) : ReadsItem f saved (argument p) t := by
  intro text rest bound hsize htext hrest hbound
  have hbegins : Begins Layer.sequence.views text :=
    (begins t htext hrest).weaken (Layer.views_subset (Layer.rank_le_sequence _))
  exact reads_ifEat_declined (hbegins.closers Terminal.argumentPlaceholder (by simp))
    (h text rest bound hsize htext hrest hbound)

/-- Behind an item comes a comma, or what comes behind the last. -/
theorem behind_further (h : Spread (furtherTokens ts) text rest) (hrest : Behind bound rest)
    (hbound : Layer.single.rank < bound) :
    ∃ bound', Behind bound' text ∧ Layer.single.rank < bound' := by
  cases ts with
  | nil =>
    cases h
    exact ⟨bound, hrest, hbound⟩
  | cons t ts =>
    have hcomma := h.behind (by simp [Token.following]) hrest.ends (.inr (by simp [Token.spellings]))
    exact ⟨_, hcomma, by decide⟩

theorem reads_further (h : ∀ t ∈ ts, ReadsItem f saved p t) (hsize : text.length ≤ f.size)
    (htext : Spread (furtherTokens ts) text rest) (hrest : Behind bound rest)
    (hbound : Layer.sequence.rank < bound) {k : Nat} (hk : text.length < k) :
    Reads f (.behind saved text) (manyWithin (whenEats Terminal.comma p) k)
      (DenotesAll f.context f.module ts) (.behind saved rest) := by
  induction ts generalizing text k with
  | nil =>
    cases htext
    obtain ⟨k, rfl⟩ := Nat.exists_eq_add_of_lt hk
    have hcomma := hrest.declines hbound Terminal.comma List.mem_cons_self
    exact reads_manyWithin_nil (reads_whenEats_declined hcomma)
  | cons t ts ih =>
    obtain ⟨k, rfl⟩ := Nat.exists_eq_add_of_lt hk
    have hends : endsToken rest := hrest.ends
    obtain ⟨item, hitem, hlength, hcomma⟩ :=
      (htext.written (by simp [furtherTokens])).takes .operator Terminal.comma rfl (by rfl) hends
    obtain ⟨mid, hfirst, hmore⟩ := hitem.append
    have hle := hfirst.length_le
    obtain ⟨bound', hmid, hbound'⟩ := behind_further hmore hrest (Nat.lt_trans (by decide) hbound)
    have hread : Reads f (.before saved item) p (t.Denotes f.context f.module) (.behind saved mid) :=
      h t List.mem_cons_self item mid bound' (by omega) (hfirst.written (t.tokensAt_ne_nil _)) hmid
        hbound'
    have htail : Reads f (.behind saved mid) (manyWithin (whenEats Terminal.comma p) (text.length + k))
        (DenotesAll f.context f.module ts) (.behind saved rest) :=
      ih (fun t' ht' => h t' (List.mem_cons_of_mem t ht')) (by omega) hmore (by omega)
    have hnext : Reads f (.behind saved text) (whenEats Terminal.comma p)
        (fun o => ∃ e, o = some e ∧ t.Denotes f.context f.module e) (.behind saved mid) :=
      reads_whenEats hcomma (reads_forget hread)
    refine reads_weaken (reads_manyWithin_cons hnext htail) fun es hes => ?_
    obtain ⟨e, es', rfl, he, hes'⟩ := hes
    exact ⟨e, es', rfl, he, hes'⟩

theorem openAt_le_items (h : t ∈ ts) : t.openAt .single ≤ innerOfItems ts := by
  induction ts with
  | nil => cases h
  | cons t' ts ih =>
    rcases List.mem_cons.1 h with rfl | h
    · exact Nat.le_max_left _ _
    · exact Nat.le_trans (ih h) (Nat.le_max_right _ _)

theorem readsItems (h : ∀ t ∈ ts, t.ReadsIn .single) (hopens : innerOfItems ts ≤ n)
    (hdepth : f.depth + innerOfItems ts ≤ f.maxDepth) :
    ∀ t ∈ ts, ReadsItem f saved (singleWithin n) t := by
  intro t ht
  have hle := openAt_le_items ht
  exact (h t ht).item (Nat.le_trans hle hopens) (by omega)

/-! ### Calls -/

theorem reads_noArguments (htext : Spread [.closing] text rest) (hends : endsToken rest) :
    Reads f (.before saved text) (argumentList p) (fun es => es = []) (.behind saved rest) := by
  obtain ⟨text', hnil, -, hclose⟩ := (htext.written (by simp)).takes .expression Terminal.rparen rfl (by rfl) hends
  cases hnil
  have hempty : Reads f (.behind saved rest) (pure []) (fun es : List Expr => es = [])
      (.behind saved rest) := reads_pure rfl
  exact reads_ifEat hclose (reads_forget hempty)

theorem reads_arguments (h : ∀ t' ∈ t :: ts, ReadsItem f saved p t') (hsize : text.length ≤ f.size)
    (htext : Spread (t.tokensAt .single ++ (furtherTokens ts ++ [Token.closing])) text rest)
    (hends : endsToken rest) :
    Reads f (.before saved text) (argumentList p) (DenotesAll f.context f.module (t :: ts))
      (.behind saved rest) := by
  have hitem : ∀ t' ∈ t :: ts, ReadsItem f saved (argument p) t' := fun t' ht' => (h t' ht').argument
  obtain ⟨mid, hfirst, hmore⟩ := htext.append
  obtain ⟨close, hfurther, hclosing⟩ := hmore.append
  have hclose : Behind (Layer.sequence.rank + 1) close :=
    hclosing.behind (by simp [Token.following]) hends (.inr (by simp [Token.spellings]))
  obtain ⟨bound, hmid, hbound⟩ := behind_further hfurther hclose (by decide)
  have hwritten : Written (t.tokensAt .single) text mid := hfirst.written (t.tokensAt_ne_nil _)
  have hbegins : Begins Layer.sequence.views text :=
    (begins t hwritten hmid).weaken (Layer.views_subset (Layer.rank_le_sequence _))
  have hle := hfirst.length_le
  obtain ⟨text', hnil, -, htake⟩ := (hclosing.written (by simp)).takes .operator Terminal.rparen rfl (by rfl) hends
  cases hnil
  have hread := hitem t List.mem_cons_self text mid bound hsize hwritten hmid hbound
  have htail := reads_further (fun t' ht' => hitem t' (List.mem_cons_of_mem t ht'))
    (by omega) hfurther hclose (Nat.lt_succ_self _) (k := f.size + 1) (by omega)
  apply reads_ifEat_declined (hbegins.closers Terminal.rparen (by simp))
  have hargs : Reads f (.before saved text) (separatedBy Terminal.comma (argument p))
      (DenotesAll f.context f.module (t :: ts)) (.behind saved close) := by
    refine reads_bind hread fun e he => ?_
    refine reads_bind (reads_many htail) fun es hes => ?_
    exact reads_pure ⟨e, es, rfl, he, hes⟩
  refine reads_bind hargs fun es hes => ?_
  refine reads_bind (reads_expect htake) fun _ _ => ?_
  exact reads_forget (reads_pure hes)

theorem readsAs_call (name : SimpleName) (h : ∀ t ∈ ts, t.ReadsIn .single) :
    ReadsAs (call name ts).tokens (innerOfItems ts) (fun c m => (call name ts).Denotes c m)
      .primary := by
  intro n f saved text rest bound hopens hdepth hsize htext hrest hbound
  have hends : endsToken rest := hrest.ends
  have hcall : ∃ tokens, (call name ts).tokens = .localName name :: .opening :: tokens := by
    cases ts with
    | nil => exact ⟨_, rfl⟩
    | cons t ts => exact ⟨_, rfl⟩
  obtain ⟨tokens, htokens⟩ := hcall
  rw [htokens] at htext
  have hbegins : Begins [callView] text := htext.begins_call hends
  have hvalues := Begins.values (hbegins.weaken callView_subset)
  have hother := hbegins.of_rules rfl callRules_decline
  obtain ⟨space, chars, mid, rfl, hspace, rfl, hmid⟩ := htext
  obtain ⟨inside, hinside, hshorter, htake⟩ := takes_call (n := name) hspace hmid hends
  have hlength : inside.length ≤ f.size := by
    simp only [List.length_append] at hsize
    omega
  have hargs : Reads f (.before saved inside) (argumentList (singleWithin n))
      (DenotesAll f.context f.module ts) (.behind saved rest) := by
    have hitems : ∀ t ∈ ts, ReadsItem f saved (singleWithin n) t := readsItems h hopens hdepth
    cases ts with
    | nil =>
      cases htokens
      exact reads_noArguments hinside hends
    | cons t ts =>
      cases htokens
      exact reads_arguments hitems hlength hinside hends
  apply reads_valueExpr_primary (fun r hr => hvalues r (List.mem_append_right _ hr))
  · exact reads_primary_name hother (reads_functionCall htake hargs)
  · exact fun _ he => not_step (call name ts) (c := f.context) he
  · exact hrest.declines hbound

end OperatorTree

end XQuerySyntax
