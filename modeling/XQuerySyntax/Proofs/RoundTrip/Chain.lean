import XQuerySyntax.Proofs.RoundTrip.Operator

/-! Chains of operators and of signs. The parser does not read the left operand of a chain as a chain of
its own: it goes on with what it has read. So what is known of the front of a chain is that the parser
comes to the end of it with its tree; where it goes from there is left open. -/

namespace XQuerySyntax

open XQuerySyntax.Parser Grammar Glimpse

/-! ### Layers of chains -/

namespace Layer

/-- The layers whose operators associate to the left. -/
def chains : List Layer := [or, and, additive, multiplicative, union, intersect]

variable {layer : Layer}

theorem parser_chain (h : layer ∈ chains) (n : Nat) :
    layer.parser n = chain layer.table (layer.tighter.parser n) := by
  simp only [chains, List.mem_cons, List.not_mem_nil, or_false] at h
  rcases h with rfl | rfl | rfl | rfl | rfl | rfl <;> rfl

theorem left_chain (h : layer ∈ chains) : layer.left = layer := by
  simp only [chains, List.mem_cons, List.not_mem_nil, or_false] at h
  rcases h with rfl | rfl | rfl | rfl | rfl | rfl <;> rfl

theorem table_rules (h : layer ∈ chains) : layer.table.map Prod.fst = layer.rules := by
  simp only [chains, List.mem_cons, List.not_mem_nil, or_false] at h
  rcases h with rfl | rfl | rfl | rfl | rfl | rfl <;> rfl

theorem chain_rank (h : layer ∈ chains) : 0 < layer.rank ∧ layer.rank ≤ or.rank := by
  simp only [chains, List.mem_cons, List.not_mem_nil, or_false] at h
  rcases h with rfl | rfl | rfl | rfl | rfl | rfl <;> decide

end Layer

theorem BinaryOperator.layer_cases (op : BinaryOperator) :
    op.layer = .comparison ∨ op.layer ∈ Layer.chains := by
  cases op <;> decide

namespace OperatorTree

variable {f : Frame} {saved : List LexicalState} {text rest : List Char} {bound n : Nat}
  {t l r : OperatorTree} {layer : Layer} {tokens : List Token} {op : BinaryOperator}

/-- Where an expression is not of a layer it is printed there as in the next tighter place. -/
theorem rank_le_tighter (hne : t.layer ≠ layer) (hpos : 0 < layer.rank) :
    t.layer.rank ≤ layer.rank ↔ t.layer.rank ≤ layer.tighter.rank := by
  have hrank : layer.tighter.rank + 1 = layer.rank := Layer.rank_tighter hpos
  have hother : t.layer.rank ≠ layer.rank := fun heq => hne (Layer.rank_inj heq)
  omega

theorem tokensAt_tighter (hne : t.layer ≠ layer) (hpos : 0 < layer.rank) :
    t.tokensAt layer = t.tokensAt layer.tighter := by
  by_cases hle : t.layer.rank ≤ layer.rank
  · rw [tokensAt_of_le hle, tokensAt_of_le ((rank_le_tighter hne hpos).1 hle)]
  · have hlt : ¬t.layer.rank ≤ layer.tighter.rank := fun h => hle ((rank_le_tighter hne hpos).2 h)
    rw [tokensAt_of_lt (Nat.not_le.1 hle), tokensAt_of_lt (Nat.not_le.1 hlt)]

theorem openAt_tighter (hne : t.layer ≠ layer) (hpos : 0 < layer.rank)
    (hor : layer.rank ≤ Layer.or.rank) : t.openAt layer = t.openAt layer.tighter := by
  have hrank : layer.tighter.rank + 1 = layer.rank := Layer.rank_tighter hpos
  have htighter : layer.tighter.rank ≤ Layer.or.rank := by omega
  by_cases hle : t.layer.rank ≤ layer.rank
  · rw [openAt_of_le hor hle, openAt_of_le htighter ((rank_le_tighter hne hpos).1 hle)]
  · have hlt : ¬t.layer.rank ≤ layer.tighter.rank := fun h => hle ((rank_le_tighter hne hpos).2 h)
    rw [openAt_of_lt hor (Nat.not_le.1 hle), openAt_of_lt htighter (Nat.not_le.1 hlt)]

/-! ### Operators -/

/-- At the front of a chain the parser of the chain comes to the end of the expression with its tree,
and goes on from there. -/
def Starts (t : OperatorTree) (layer : Layer) : Prop :=
  ∀ (n : Nat) (f : Frame) (saved : List LexicalState) (text rest : List Char) (bound : Nat)
    (Q : Expr → Prop) (place : Place), t.openAt layer ≤ n → f.depth + t.openAt layer ≤ f.maxDepth →
      text.length ≤ f.size → Written (t.tokensAt layer) text rest → Behind bound rest →
        layer.rank ≤ bound →
          (∀ e k, t.Denotes f.context f.module e → rest.length < k →
            Reads f (.behind saved rest)
              (iterateWithin (chainStep layer.table (layer.tighter.parser n)) k e) Q place) →
            Reads f (.before saved text) (layer.parser n) Q place

/-- An operand of a tighter layer is the first of its chain. -/
theorem ReadsIn.starts (h : t.ReadsIn layer.tighter) (hne : t.layer ≠ layer)
    (hlayer : layer ∈ Layer.chains) : t.Starts layer := by
  intro n f saved text rest bound Q place hopens hdepth hsize htext hrest hbound hnext
  obtain ⟨hpos, hor⟩ := Layer.chain_rank hlayer
  have hrank : layer.tighter.rank + 1 = layer.rank := Layer.rank_tighter hpos
  rw [openAt_tighter hne hpos hor] at hopens hdepth
  rw [tokensAt_tighter hne hpos] at htext
  have hle := htext.length_le
  have hread := h n f saved text rest bound hopens hdepth hsize htext hrest (by omega)
  rw [Layer.parser_chain hlayer]
  refine reads_bind hread fun e he => ?_
  apply reads_iterate
  exact hnext e (f.size + 1) he (by omega)

/-- A step of a chain: behind what has been read come the operator and its right operand. -/
theorem reads_chainStep (saved : List LexicalState) (hr : r.ReadsIn op.layer.tighter) (left : Expr)
    (hopens : r.openAt op.layer.tighter ≤ n)
    (hdepth : f.depth + r.openAt op.layer.tighter ≤ f.maxDepth) (hsize : text.length ≤ f.size)
    (hmore : Spread (.operator op :: r.tokensAt op.layer.tighter) text rest)
    (hrest : Behind bound rest) (hbound : op.layer.tighter.rank < bound) :
    rest.length < text.length ∧
      Reads f (.behind saved text) (chainStep op.layer.table (op.layer.tighter.parser n) left)
        (fun o => ∃ e, o = .inl e ∧ ∃ offset right, e = .mk (.binary op left right) offset f.module ∧
          r.Denotes f.context f.module right) (.behind saved rest) := by
  obtain ⟨text', htext', hlt, hoperator⟩ :=
    reads_operator (f := f) hmore (r.tokensAt_ne_nil _) hrest.ends
  have hle := htext'.length_le
  have hright := hr n f saved text' rest bound hopens hdepth (by omega)
    (htext'.written (r.tokensAt_ne_nil _)) hrest hbound
  refine ⟨by omega, ?_⟩
  refine reads_bind hoperator fun o ho => ?_
  rw [ho]
  refine reads_bind reads_start fun offset _ => ?_
  refine reads_bind (reads_forget hright) fun right hright => ?_
  refine reads_bind (reads_node _ offset) fun e he => ?_
  exact reads_pure ⟨e, rfl, offset, right, he, hright⟩

/-- Behind the left operand the parser reads the operator and the right operand, and has the front of
the chain as far as there. -/
theorem starts_binary (hl : l.Starts op.layer) (hr : r.ReadsIn op.layer.tighter)
    (hlayer : op.layer ∈ Layer.chains) : (binary op l r).Starts op.layer := by
  intro n f saved text rest bound Q place hopens hdepth hsize htext hrest hbound hnext
  obtain ⟨hpos, hor⟩ := Layer.chain_rank hlayer
  have hrank : op.layer.tighter.rank + 1 = op.layer.rank := Layer.rank_tighter hpos
  have hends : endsToken rest := hrest.ends
  have hown : (binary op l r).layer.rank ≤ op.layer.rank := Nat.le_refl _
  have hinner : (binary op l r).openAt op.layer =
      max (l.openAt op.layer) (r.openAt op.layer.tighter) := by
    rw [openAt_of_le hor hown]
    change max (l.openAt op.layer.left) (r.openAt op.layer.tighter) = _
    rw [Layer.left_chain hlayer]
  have htokens : (binary op l r).tokensAt op.layer =
      l.tokensAt op.layer ++ .operator op :: r.tokensAt op.layer.tighter := by
    rw [tokensAt_of_le hown]
    change l.tokensAt op.layer.left ++ .operator op :: r.tokensAt op.layer.tighter = _
    rw [Layer.left_chain hlayer]
  rw [htokens] at htext
  obtain ⟨mid, hleft, hmore⟩ := htext.append (l.tokensAt_ne_nil _)
  have hle := hleft.length_le
  have hmid : Behind op.layer.rank mid := hmore.behind (Token.operator_mem_following op) hends
    (.inl (r.tokensAt_ne_nil _))
  apply hl n f saved text mid op.layer.rank Q place (by omega) (by omega) hsize hleft hmid
    (Nat.le_refl _)
  intro left k hleft hk
  obtain ⟨k, rfl⟩ := Nat.exists_eq_add_of_lt hk
  obtain ⟨hlt, hstep⟩ := reads_chainStep (f := f) (n := n) saved hr left (by omega)
    (by omega) (by omega) hmore hrest (by omega)
  have hstep' : Reads f (.behind saved mid) (chainStep op.layer.table (op.layer.tighter.parser n) left)
      (fun o => ∃ e, o = .inl e ∧ (binary op l r).Denotes f.context f.module e)
      (.behind saved rest) := by
    refine reads_weaken hstep fun o ho => ?_
    obtain ⟨e, rfl, offset, right, he, hright⟩ := ho
    exact ⟨e, rfl, offset, left, right, he, hleft, hright⟩
  exact reads_iterateWithin_next hstep' fun e he => hnext e _ he (by omega)

/-- A chain that nothing goes on with is an expression of its layer. -/
theorem Starts.readsAs (h : t.Starts layer) (hlayer : layer ∈ Layer.chains) :
    ReadsAs (t.tokensAt layer) (t.openAt layer) (fun c m => t.Denotes c m) layer := by
  intro n f saved text rest bound hopens hdepth hsize htext hrest hbound
  have hrules : ∀ o ∈ layer.table, Declines .operator rest o.1 := by
    intro o ho
    have hmem := List.mem_map_of_mem (f := Prod.fst) ho
    rw [Layer.table_rules hlayer] at hmem
    exact hrest.declines hbound o.1 hmem
  apply h n f saved text rest bound _ _ hopens hdepth hsize htext hrest (Nat.le_of_lt hbound)
  intro e k he hk
  exact reads_chain_end he (Nat.zero_lt_of_lt hk) hrules

/-- A chain of two operands with whatever is read in front of its operator. -/
theorem reads_chain_binary {mid : List Char} {P : Expr → Prop} (hlayer : op.layer ∈ Layer.chains)
    (hleft : Reads f (.before saved text) (op.layer.tighter.parser n) P (.behind saved mid))
    (hr : r.ReadsIn op.layer.tighter) (hopens : r.openAt op.layer.tighter ≤ n)
    (hdepth : f.depth + r.openAt op.layer.tighter ≤ f.maxDepth) (hsize : mid.length ≤ f.size)
    (hmore : Spread (.operator op :: r.tokensAt op.layer.tighter) mid rest)
    (hrest : Behind bound rest) (hbound : op.layer.rank < bound) :
    Reads f (.before saved text) (op.layer.parser n)
      (fun e => ∃ offset left right, e = .mk (.binary op left right) offset f.module ∧ P left ∧
        r.Denotes f.context f.module right) (.behind saved rest) := by
  obtain ⟨hpos, hor⟩ := Layer.chain_rank hlayer
  have hrank : op.layer.tighter.rank + 1 = op.layer.rank := Layer.rank_tighter hpos
  have hrules : ∀ o ∈ op.layer.table, Declines .operator rest o.1 := by
    intro o ho
    have hmem := List.mem_map_of_mem (f := Prod.fst) ho
    rw [Layer.table_rules hlayer] at hmem
    exact hrest.declines hbound o.1 hmem
  rw [Layer.parser_chain hlayer]
  refine reads_bind hleft fun left hleft => ?_
  obtain ⟨hlt, hstep⟩ := reads_chainStep (f := f) (n := n) saved hr left hopens hdepth hsize
    hmore hrest (by omega)
  apply reads_iterate
  refine reads_iterateWithin_next hstep fun e he => ?_
  obtain ⟨offset, right, he, hright⟩ := he
  exact reads_chain_end ⟨offset, left, right, he, hleft, hright⟩ (by omega) hrules

/-! ### Signs -/

/-- The signs in front of the expression are read, and then what they stand in front of. -/
def Signed (t : OperatorTree) : Prop :=
  ∀ (n : Nat) (f : Frame) (saved : List LexicalState) (text rest : List Char) (bound k : Nat),
    t.openAt .unary ≤ n → f.depth + t.openAt .unary ≤ f.maxDepth → text.length ≤ f.size →
      Written (t.tokensAt .unary) text rest → Behind bound rest → Layer.unary.rank < bound →
        text.length < k →
          ∃ (mid : List Char) (P : Expr → Prop),
            Reads f (.before saved text) (manyWithin sign? k)
              (fun signs => ∀ e, P e → Reads f (.behind saved rest) (applySigns e signs)
                (t.Denotes f.context f.module) (.behind saved rest)) (.before saved mid) ∧
            Reads f (.before saved mid) (valueExpr (singleWithin n)) P (.behind saved rest)

/-- An operand of a tighter layer has no sign in front. -/
theorem ReadsIn.signed (h : t.ReadsIn .primary) (hne : t.layer ≠ .unary) : t.Signed := by
  intro n f saved text rest bound k hopens hdepth hsize htext hrest hbound hk
  rw [openAt_tighter hne (by decide) (by decide)] at hopens hdepth
  rw [tokensAt_tighter hne (by decide)] at htext
  have hvalues := (t.beginsAs .primary text rest bound htext hrest).values
  have hread := h n f saved text rest bound hopens hdepth hsize htext hrest
    (Nat.lt_trans (by decide) hbound)
  have hsigns : Reads f (.before saved text) (manyWithin sign? k) (fun signs => signs = [])
      (.before saved text) :=
    reads_unsigned (Nat.zero_lt_of_lt hk) fun r hr => hvalues r (List.mem_append_left _ hr)
  refine ⟨text, t.Denotes f.context f.module, reads_weaken hsigns ?_, hread⟩
  rintro signs rfl e he
  exact reads_pure he

theorem plusView_decline : Scan.declines .expression Terminal.unaryMinus [.char '+'] := by
  rw [Scan.declines_eq]
  rfl

theorem reads_sign {op : UnaryOperator} (f : Frame) (saved : List LexicalState)
    (htext : Written (.sign op :: tokens) text rest)
    (hends : endsToken rest) :
    ∃ text', Spread tokens text' rest ∧ text'.length < text.length ∧
      Reads f (.before saved text) sign? (fun o => ∃ a, o = some a ∧ a.1 = op)
        (.before saved text') := by
  have hanswer (text' : List Char) (found : Captures) :
      Reads f ⟨text', ⟨.expression, saved⟩, some found⟩ (do return some (op, ← start))
        (fun o => ∃ a, o = some a ∧ a.1 = op) (.before saved text') := by
    apply reads_forget
    exact reads_bind reads_start fun offset _ => reads_pure ⟨(op, offset), rfl, rfl⟩
  cases op with
  | minus =>
    obtain ⟨text', htext', hlt, htake⟩ :=
      htext.takes .expression Terminal.unaryMinus rfl (by rfl) hends
    have hfirst : Reads f (.before saved text)
        (eatFirst [(Terminal.unaryMinus, UnaryOperator.minus), (Terminal.unaryPlus, .plus)])
        (fun o => o = some .minus) ⟨text', ⟨.expression, saved⟩, some []⟩ :=
      reads_ifEat htake (reads_pure rfl)
    refine ⟨text', htext', hlt, reads_bind hfirst fun o ho => ?_⟩
    rw [ho]
    exact hanswer text' []
  | plus =>
    have hminus : Declines .expression text Terminal.unaryMinus := by
      obtain ⟨space, chars, mid, rfl, hspace, ⟨spelling, hmem, rfl⟩, -⟩ := htext
      obtain rfl := List.mem_singleton.1 hmem
      have hbegins : Begins [[.char '+']] (space ++ ("+".toList ++ mid)) :=
        begins_token hspace List.mem_cons_self ⟨mid, rfl, trivial⟩
      exact hbegins.declines rfl (by simpa using plusView_decline)
    obtain ⟨text', htext', hlt, htake⟩ :=
      htext.takes .expression Terminal.unaryPlus rfl (by rfl) hends
    have hfirst : Reads f (.before saved text)
        (eatFirst [(Terminal.unaryMinus, UnaryOperator.minus), (Terminal.unaryPlus, .plus)])
        (fun o => o = some .plus) ⟨text', ⟨.expression, saved⟩, some []⟩ :=
      reads_ifEat_declined hminus (reads_ifEat htake (reads_pure rfl))
    refine ⟨text', htext', hlt, reads_bind hfirst fun o ho => ?_⟩
    rw [ho]
    exact hanswer text' []

theorem signed_unary {op : UnaryOperator} (h : t.Signed) : (unary op t).Signed := by
  intro n f saved text rest bound k hopens hdepth hsize htext hrest hbound hk
  obtain ⟨text', htext', hlt, hsign⟩ := reads_sign f saved htext hrest.ends
  obtain ⟨k, rfl⟩ := Nat.exists_eq_add_of_lt hk
  obtain ⟨mid, P, hsigns, hvalue⟩ := h n f saved text' rest bound (text.length + k) hopens hdepth
    (by omega) (htext'.written (t.tokensAt_ne_nil _)) hrest hbound (by omega)
  refine ⟨mid, P, ?_, hvalue⟩
  refine reads_weaken (reads_manyWithin_cons hsign hsigns) fun signs hall => ?_
  obtain ⟨⟨_, offset⟩, signs, rfl, rfl, happly⟩ := hall
  intro e he
  refine reads_bind (happly e he) fun operand hoperand => ?_
  refine reads_weaken (reads_node _ offset) fun e' he' => ?_
  exact ⟨offset, operand, he', hoperand⟩

theorem Signed.readsAs (h : t.Signed) :
    ReadsAs (t.tokensAt .unary) (t.openAt .unary) (fun c m => t.Denotes c m) .unary := by
  intro n f saved text rest bound hopens hdepth hsize htext hrest hbound
  obtain ⟨mid, P, hsigns, hvalue⟩ := h n f saved text rest bound (f.size + 1) hopens hdepth hsize htext
    hrest hbound (by omega)
  have hunary : Reads f (.before saved text) (unaryExpr (singleWithin n))
      (t.Denotes f.context f.module) (.behind saved rest) := by
    refine reads_bind (reads_many hsigns) fun signs happly => ?_
    exact reads_bind hvalue happly
  exact reads_instanceOfExpr hunary (hrest.declines hbound)

end OperatorTree

end XQuerySyntax
