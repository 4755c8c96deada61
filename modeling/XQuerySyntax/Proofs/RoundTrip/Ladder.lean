import XQuerySyntax.Proofs.RoundTrip.Beginning

/-! From one layer to the next looser one. What a layer reads the looser layers read as well, if the
text in front is not taken for something else and no operator of theirs comes behind. -/

namespace XQuerySyntax

open XQuerySyntax.Parser

/-- A place before an operand. -/
def Place.before (saved : List LexicalState) (text : List Char) : Place :=
  .at text ⟨.expression, saved⟩

/-- A place behind an operand. -/
def Place.behind (saved : List LexicalState) (text : List Char) : Place :=
  .at text ⟨.operator, saved⟩

namespace Grammar

variable {f : Frame} {l : Place} {saved : List LexicalState} {text rest : List Char}
  {single operand : Parser Expr} {P : Expr → Prop}

/-! ### Operators -/

/-- A chain ends where none of its operators comes next. -/
theorem reads_chain_end {operators : OperatorTable} {n : Nat} {e : Expr} (he : P e) (hn : 0 < n)
    (hops : ∀ o ∈ operators, Declines .operator rest o.1) :
    Reads f (.behind saved rest) (iterateWithin (chainStep operators operand) n e) P
      (.behind saved rest) := by
  obtain ⟨n, rfl⟩ := Nat.exists_eq_add_of_lt hn
  rw [Nat.zero_add]
  apply reads_iterateWithin_done
  refine reads_bind (reads_eatFirst_declined hops) fun o ho => ?_
  rw [ho]
  exact reads_pure ⟨e, rfl, he⟩

theorem reads_chain {operators : OperatorTable} (h : Reads f l operand P (.behind saved rest))
    (hops : ∀ o ∈ operators, Declines .operator rest o.1) :
    Reads f l (chain operators operand) P (.behind saved rest) := by
  refine reads_bind h fun e he => ?_
  apply reads_iterate
  exact reads_chain_end he (Nat.succ_pos _) hops

theorem reads_suffixed {r : Rule} {form : Expr → Parser (ExprKind Expr)}
    (h : Reads f l operand P (.behind saved rest)) (hr : Declines .operator rest r) :
    Reads f l (suffixed r operand form) P (.behind saved rest) := by
  refine reads_bind h fun e he => ?_
  exact reads_ifEat_declined hr (reads_pure he)

theorem reads_unsigned {n : Nat} (hn : 0 < n)
    (hsigns : ∀ r ∈ signRules, Declines .expression text r) :
    Reads f (.before saved text) (manyWithin sign? n) (fun signs => signs = [])
      (.before saved text) := by
  obtain ⟨n, rfl⟩ := Nat.exists_eq_add_of_lt hn
  rw [Nat.zero_add]
  apply reads_manyWithin_nil
  have hfirst : ∀ o ∈ [(Terminal.unaryMinus, UnaryOperator.minus), (Terminal.unaryPlus, .plus)],
      Declines .expression text o.1 := by
    intro o ho
    rcases List.mem_cons.1 ho with rfl | ho
    · exact hsigns _ List.mem_cons_self
    · obtain rfl := List.mem_singleton.1 ho
      exact hsigns _ (List.mem_cons_of_mem _ List.mem_cons_self)
  refine reads_bind (reads_eatFirst_declined hfirst) fun o ho => ?_
  rw [ho]
  exact reads_pure rfl

theorem reads_unaryExpr (hsigns : ∀ r ∈ signRules, Declines .expression text r)
    (h : Reads f (.before saved text) (valueExpr single) P (.behind saved rest)) :
    Reads f (.before saved text) (unaryExpr single) P (.behind saved rest) := by
  refine reads_bind (reads_many (reads_unsigned (Nat.succ_pos _) hsigns)) fun signs hs => ?_
  refine reads_bind h fun e he => ?_
  rw [hs]
  exact reads_pure he

/-- If no value can be read, no chain of operators can. -/
theorem stops_orExpr {E : Stop → Prop} (hsigns : ∀ r ∈ signRules, Declines .expression text r)
    (h : Stops f (.before saved text) (valueExpr single) E) :
    Stops f (.before saved text) (orExpr single) E := by
  have hunary : Stops f (.before saved text) (unaryExpr single) E :=
    stops_bind (reads_many (reads_unsigned (Nat.succ_pos _) hsigns)) fun _ _ => h.bind
  have hinstance : Stops f (.before saved text) (instanceOfExpr single) E := hunary.bind.bind.bind.bind
  have hadditive : Stops f (.before saved text) (additiveExpr single) E := hinstance.bind.bind.bind.bind
  have hcomparison : Stops f (.before saved text) (comparisonExpr single) E := hadditive.bind.bind.bind
  exact hcomparison.bind.bind

/-- The type operators stand behind an operand with its signs. -/
theorem reads_instanceOfExpr (h : Reads f l (unaryExpr single) P (.behind saved rest))
    (hbehind : ∀ r ∈ Layer.unary.rules, Declines .operator rest r) :
    Reads f l (instanceOfExpr single) P (.behind saved rest) := by
  apply reads_suffixed _ (hbehind Terminal.instanceOf (by simp [Layer.rules]))
  apply reads_suffixed _ (hbehind Terminal.treatAs (by simp [Layer.rules]))
  apply reads_suffixed _ (hbehind Terminal.castableAs (by simp [Layer.rules]))
  exact reads_suffixed h (hbehind Terminal.castAs (by simp [Layer.rules]))

theorem reads_ftContainsExpr (h : Reads f l (rangeExpr single) P (.behind saved rest))
    (hbehind : ∀ r ∈ Layer.range.rules, Declines .operator rest r) :
    Reads f l (ftContainsExpr single) P (.behind saved rest) := by
  have hsearch : ∀ o ∈ [(Terminal.ftContains, ()), (Terminal.containsText, ())],
      Declines .operator rest o.1 := by
    intro o ho
    apply hbehind
    rcases List.mem_cons.1 ho with rfl | ho
    · simp [Layer.rules]
    · obtain rfl := List.mem_singleton.1 ho
      simp [Layer.rules]
  refine reads_bind h fun e he => ?_
  refine reads_bind (reads_eatFirst_declined hsearch) fun o ho => ?_
  rw [ho]
  exact reads_pure he

theorem reads_comparisonExpr (h : Reads f l (ftContainsExpr single) P (.behind saved rest))
    (hbehind : ∀ o ∈ OperatorTable.comparison, Declines .operator rest o.1) :
    Reads f l (comparisonExpr single) P (.behind saved rest) := by
  refine reads_bind h fun e he => ?_
  refine reads_bind (reads_eatFirst_declined hbehind) fun o ho => ?_
  rw [ho]
  exact reads_pure he

/-! ### Single expressions -/

theorem reads_flwor_declined (h : ∀ r ∈ flworRules, Declines .expression text r) :
    Reads f (.before saved text) (flwor single) (fun e => e = none) (.before saved text) := by
  have hclause : Reads f (.before saved text) (initialClause single) (fun c => c = none)
      (.before saved text) := by
    apply reads_ifEat_declined (h Terminal.forTumbling (by simp [flworRules]))
    apply reads_ifEat_declined (h Terminal.forSliding (by simp [flworRules]))
    apply reads_ifEat_declined (h Terminal.forClause (by simp [flworRules]))
    apply reads_ifEat_declined (h Terminal.letScore (by simp [flworRules]))
    apply reads_ifEat_declined (h Terminal.letClause (by simp [flworRules]))
    exact reads_pure rfl
  refine reads_bind reads_nextOffset fun _ _ => ?_
  refine reads_bind hclause fun c hc => ?_
  rw [hc]
  exact reads_pure rfl

theorem reads_updateExpr_declined (h : ∀ r ∈ updateRules, Declines .expression text r) :
    Reads f (.before saved text) (updateExpr single) (fun e => e = none) (.before saved text) := by
  have eitherOf {r₁ r₂ : Rule} (h₁ : r₁ ∈ updateRules) (h₂ : r₂ ∈ updateRules) :
      Reads f (.before saved text) (eatFirst [(r₁, ()), (r₂, ())]) (fun o => o = none)
        (.before saved text) := by
    apply reads_eatFirst_declined
    intro o ho
    apply h
    rcases List.mem_cons.1 ho with rfl | ho
    · exact h₁
    · obtain rfl := List.mem_singleton.1 ho
      exact h₂
  have hkind : Reads f (.before saved text) (updateKind single) (fun k => k = none)
      (.before saved text) := by
    refine reads_bind (eitherOf (by simp [updateRules]) (by simp [updateRules])) fun o ho => ?_
    rw [ho]
    refine reads_bind (eitherOf (by simp [updateRules]) (by simp [updateRules])) fun o ho => ?_
    rw [ho]
    apply reads_ifEat_declined (h Terminal.replaceValue (by simp [updateRules]))
    apply reads_ifEat_declined (h Terminal.replaceNode (by simp [updateRules]))
    apply reads_ifEat_declined (h Terminal.renameNode (by simp [updateRules]))
    exact reads_whenEats_declined (h Terminal.copyClause (by simp [updateRules]))
  refine reads_bind reads_nextOffset fun _ _ => ?_
  refine reads_bind hkind fun k hk => ?_
  rw [hk]
  exact reads_pure rfl

theorem reads_scriptingExpr_declined (h : ∀ r ∈ statementRules, Declines .expression text r) :
    Reads f (.before saved text) (scriptingExpr single) (fun e => e = none)
      (.before saved text) := by
  have hexit : ∀ o ∈ [(Terminal.exitReturning, ()), (Terminal.exitWith, ())],
      Declines .expression text o.1 := by
    intro o ho
    apply h
    rcases List.mem_cons.1 ho with rfl | ho
    · simp [statementRules]
    · obtain rfl := List.mem_singleton.1 ho
      simp [statementRules]
  have hkind : Reads f (.before saved text) (statementKind single) (fun k => k = none)
      (.before saved text) := by
    apply reads_ifEat_declined (h Terminal.whileLoop (by simp [statementRules]))
    refine reads_bind (reads_eatFirst_declined hexit) fun o ho => ?_
    rw [ho]
    apply reads_ifEat_declined (h Terminal.breakLoop (by simp [statementRules]))
    apply reads_ifEat_declined (h Terminal.continueLoop (by simp [statementRules]))
    apply reads_ifEat_declined (h Terminal.setVariable (by simp [statementRules]))
    apply reads_ifEat_declined (h Terminal.assignment (by simp [statementRules]))
    exact reads_pure rfl
  refine reads_bind reads_nextOffset fun _ _ => ?_
  apply reads_ifEat_declined (h Terminal.blockOpen (by simp [statementRules]))
  refine reads_bind hkind fun k hk => ?_
  rw [hk]
  exact reads_pure rfl

/-- Where no keyword expression begins a single expression is a chain of operators. -/
theorem passes_singleOf (hkeywords : ∀ r ∈ keywordRules, Declines .expression text r) :
    Passes f (.before saved text) (singleOf single) (orExpr single) (.before saved text) := by
  have hclause : ∀ r ∈ flworRules, Declines .expression text r :=
    fun r hr => hkeywords r (by simp [keywordRules, hr])
  have hupdate : ∀ r ∈ updateRules, Declines .expression text r :=
    fun r hr => hkeywords r (by simp [keywordRules, hr])
  have hstatement : ∀ r ∈ statementRules, Declines .expression text r :=
    fun r hr => hkeywords r (by simp [keywordRules, hr])
  refine passes_bind (reads_flwor_declined hclause) fun e he => ?_
  rw [he]
  apply passes_ifEat_declined (hkeywords Terminal.someQuantifier (by simp [keywordRules]))
  apply passes_ifEat_declined (hkeywords Terminal.everyQuantifier (by simp [keywordRules]))
  apply passes_ifEat_declined (hkeywords Terminal.switch (by simp [keywordRules]))
  apply passes_ifEat_declined (hkeywords Terminal.typeswitch (by simp [keywordRules]))
  apply passes_ifEat_declined (hkeywords Terminal.ifCondition (by simp [keywordRules]))
  apply passes_ifEat_declined (hkeywords Terminal.tryBody (by simp [keywordRules]))
  refine passes_bind (reads_updateExpr_declined hupdate) fun e he => ?_
  rw [he]
  refine passes_bind (reads_scriptingExpr_declined hstatement) fun e he => ?_
  rw [he]
  exact passes_refl

theorem reads_singleOf (hkeywords : ∀ r ∈ keywordRules, Declines .expression text r)
    (h : Reads f (.before saved text) (orExpr single) P (.behind saved rest)) :
    Reads f (.before saved text) (singleOf single) P (.behind saved rest) :=
  (passes_singleOf hkeywords).reads h

theorem stops_exprSingle {E : Stop → Prop} (hdepth : f.depth < f.maxDepth)
    (h : Stops { f with depth := f.depth + 1 } l (singleOf (singleWithin f.size)) E) :
    Stops f l exprSingle E := by
  intro s hs
  have hsteps : s.steps = f.size + 1 := by
    rw [← hs.frame]
    rfl
  have hread := stops_nested hdepth h s hs
  change ∃ e s₁, singleWithin s.steps s = .error e s₁ ∧ E e
  rw [hsteps]
  exact hread

/-- A single expression alone is an expression. -/
theorem reads_expr (h : Reads f l single P (.behind saved rest))
    (hcomma : Declines .operator rest Terminal.comma) :
    Reads f l (expr single) P (.behind saved rest) := by
  refine reads_bind h fun e he => ?_
  exact reads_unlessPeek_declined hcomma (reads_pure he)

end Grammar

/-! ### Climbing -/

namespace Layer

open Grammar

/-- The parser of a layer, with at most so many single expressions inside one another. -/
def parser (n : Nat) : Layer → Parser Expr
  | primary => valueExpr (singleWithin n)
  | unary => instanceOfExpr (singleWithin n)
  | intersect => intersectExpr (singleWithin n)
  | union => unionExpr (singleWithin n)
  | multiplicative => multiplicativeExpr (singleWithin n)
  | additive => additiveExpr (singleWithin n)
  | range => ftContainsExpr (singleWithin n)
  | comparison => comparisonExpr (singleWithin n)
  | and => andExpr (singleWithin n)
  | or => orExpr (singleWithin n)
  | single => singleWithin n
  | sequence => expr (singleWithin n)

variable {f : Frame} {saved : List LexicalState} {text rest : List Char} {P : Expr → Prop} {n : Nat}
  {layer place : Layer}

/-- One layer further up, if no operator of that layer comes behind. -/
theorem reads_next (hplace : 0 < place.rank ∧ place.rank ≤ or.rank)
    (h : Reads f (.before saved text) (place.tighter.parser n) P (.behind saved rest))
    (hsigns : place = unary → ∀ r ∈ signRules, Declines .expression text r)
    (hbehind : ∀ r ∈ place.rules, Declines .operator rest r) :
    Reads f (.before saved text) (place.parser n) P (.behind saved rest) := by
  have of_table {operators : OperatorTable} (htable : operators.map Prod.fst = place.rules) :
      ∀ o ∈ operators, Declines .operator rest o.1 :=
    fun o ho => hbehind o.1 (htable ▸ List.mem_map_of_mem ho)
  cases place with
  | primary => exact absurd hplace.1 (by decide)
  | unary =>
    exact reads_instanceOfExpr (reads_unaryExpr (hsigns rfl) h) hbehind
  | intersect | union | multiplicative | additive | and | or => exact reads_chain h (of_table rfl)
  | range =>
    have hrange : Reads f (.before saved text) (rangeExpr (singleWithin n)) P (.behind saved rest) :=
      reads_suffixed h (hbehind Terminal.toRange List.mem_cons_self)
    exact reads_ftContainsExpr hrange hbehind
  | comparison => exact reads_comparisonExpr h (of_table rfl)
  | single | sequence => exact absurd hplace.2 (by decide)

theorem rank_tighter {place : Layer} (h : 0 < place.rank) : place.tighter.rank + 1 = place.rank := by
  cases place <;> first
    | rfl
    | exact absurd h (by decide)

/-- What a layer reads every looser layer of operators reads, if none of their operators comes behind. -/
theorem reads_climb (hbehind : ∀ layer : Layer, layer.rank ≤ place.rank →
      ∀ r ∈ layer.rules, Declines .operator rest r)
    (hlayer : layer.rank ≤ place.rank) (hplace : place.rank ≤ or.rank)
    (hsigns : layer = primary → ∀ r ∈ signRules, Declines .expression text r)
    (h : Reads f (.before saved text) (layer.parser n) P (.behind saved rest)) :
    Reads f (.before saved text) (place.parser n) P (.behind saved rest) := by
  induction hk : place.rank - layer.rank generalizing place with
  | zero =>
    have heq : place = layer := rank_inj (by omega)
    rw [heq]
    exact h
  | succ k ih =>
    have hrank : place.tighter.rank + 1 = place.rank := rank_tighter (by omega)
    have htighter : Reads f (.before saved text) (place.tighter.parser n) P (.behind saved rest) :=
      ih (fun layer hle => hbehind layer (by omega)) (by omega) (by omega) (by omega)
    refine reads_next ⟨by omega, hplace⟩ htighter ?_ (hbehind place (Nat.le_refl _))
    rintro rfl
    refine hsigns (rank_inj ?_)
    change _ = 0
    change layer.rank ≤ 1 at hlayer
    change 1 - layer.rank = k + 1 at hk
    omega

/-- The same up to the layer of what comes behind. -/
theorem reads_looser {bound : Nat} (hbehind : Behind bound rest) (hbound : place.rank < bound)
    (hlayer : layer.rank ≤ place.rank) (hplace : place.rank ≤ or.rank)
    (hsigns : layer = primary → ∀ r ∈ signRules, Declines .expression text r)
    (h : Reads f (.before saved text) (layer.parser n) P (.behind saved rest)) :
    Reads f (.before saved text) (place.parser n) P (.behind saved rest) :=
  reads_climb (fun _ hle => hbehind.declines (Nat.lt_of_le_of_lt hle hbound)) hlayer hplace hsigns h

end Layer

end XQuerySyntax
