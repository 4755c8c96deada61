import XQuerySyntax.Proofs.Comparison.Flwor
import XQuerySyntax.Proofs.RoundTrip.Clause

/-! Queries are read as they are written: the clauses, the condition that ends them, the grouping and the
clauses behind it, the ordering and the result, in this order. -/

namespace XQuerySyntax

open XQuerySyntax.Parser Grammar

/-- The grouping key with its expression made over. -/
def GroupingSpec.Denotes (module : ModuleId) (g : GroupingSpec SimpleOperand) (g' : GroupingSpec Expr) :
    Prop := g'.map Expr.placeless = g.map (SimpleOperand.expr module)

/-- The ordering key with its expression made over. -/
def OrderSpec.Denotes (module : ModuleId) (s : OrderSpec SimpleOperand) (s' : OrderSpec Expr) : Prop :=
  s'.map Expr.placeless = s.map (SimpleOperand.expr module)

/-- The query up to where it stands. -/
def Flwor.Denotes (module : ModuleId) (q : Flwor SimpleOperand) (q' : Flwor Expr) : Prop :=
  q'.map Expr.placeless (fun _ => 0) = q.exprs module

namespace Grammar

variable {f : Frame} {saved : List LexicalState} {single : Parser Expr} {text rest : List Char}
  {next : List Piece} {words : List String}

/-! ### Grouping and ordering keys -/

/-- The collation is taken with its keyword. -/
theorem Begun.takes_collation {value : String}
    (h : Begun (.mark "collation" :: .string value :: next) text rest) (hends : endsToken rest) :
    ∃ mid, Spaced next mid rest ∧ mid.length < text.length ∧
      Takes .operator text Terminal.collation mid [.string value] := by
  obtain ⟨space, chars, text', rfl, hspace, hchars, htext⟩ := h
  have hlonger := List.length_pos_iff.2 hchars.ne_nil
  have hset := hchars.settled (htext.ends hends)
  have hbehind := (htext.ends hends).endsName
  have hitems : Terminal.collation.items =
      "collation".toList.map .char ++ [.gap, .capture .string] := by rfl
  cases htext with
  | @cons _ _ gap quoted mid _ hgap hne hquoted hmid =>
    have hmidEnds := hmid.ends hends
    have hstring : (Token.string value).Spells quoted := hquoted
    refine ⟨mid, hmid, ?_, takes_of_accepts rfl rfl rfl rfl hspace hset ?_⟩
    · simp only [List.length_append]
      omega
    · rw [hitems]
      refine hchars.accepts hbehind fun w => ?_
      exact Scan.accepts_gap (scanTrivia_append hgap (hquoted.settled hmidEnds))
        (fun _ => hgap.startsTrivia hne _) (hstring.accepts_string hmidEnds.ne_quotes (Scan.accepts_nil mid))

/-- A collation is read if there is one. -/
theorem reads_collation (f : Frame) (saved : List LexicalState) {value : Option String}
    (h : Spaced (collationPieces value ++ next) text rest) (hends : endsToken rest) (hnext : Follows itemFollow next) :
    ReadsUpTo f saved .operator next rest (.behind saved text) collation (fun c => c = value) := by
  cases value with
  | none =>
    have hdeclines := hnext.declines h hends .operator Terminal.collation (by rfl)
    exact ⟨text, h, Nat.le_refl _, reads_whenEats_declined hdeclines⟩
  | some value =>
    obtain ⟨mid, hmid, hlt, htake⟩ :=
      Begun.takes_collation (h.begun (List.cons_ne_nil _ _)) hends
    have hstring : Reads f ⟨mid, ⟨.operator, saved⟩, some [.string value]⟩ (capturedString 0)
        (fun s => s = value) ⟨mid, ⟨.operator, saved⟩, some [.string value]⟩ :=
      reads_captured fun captures => captures.string 0
    have hread : Reads f (.behind saved text) collation (fun o => ∃ s, o = some s ∧ s = value)
        ⟨mid, ⟨.operator, saved⟩, some [.string value]⟩ := reads_whenEats htake hstring
    refine ⟨mid, hmid, hlt.le, reads_leave (reads_weaken hread fun o ho => ?_)⟩
    obtain ⟨s, rfl, rfl⟩ := ho
    rfl

theorem follows_collation (value : Option String) (hnext : Follows words next) :
    Follows ("collation" :: words) (collationPieces value ++ next) := by
  cases value with
  | none => exact hnext.weaken (List.subset_cons_self _ _)
  | some value => exact .mark List.mem_cons_self _

theorem assign_decline :
    (("collation" :: itemFollow).all fun word =>
      Scan.declinesAt .operator Terminal.assign (Piece.front (.mark word))) = true := by
  rw [Scan.declinesAt_eq]
  rfl

/-- A grouping key is read, whether its variable was bound before or not. -/
theorem reads_groupingSpec {g : GroupingSpec SimpleOperand} (bound : List ExpandedName)
    (hs : ReadsOperands f single) (hname : g.name.ResolvesIn f.context none)
    (hvalue : ∀ v ∈ g.value, v.Fits f.scope) (hends : endsToken rest) :
    ReadsListed f saved rest g.pieces (groupingSpec single bound) (g.Denotes f.module) := by
  intro text next hsize h hnext
  obtain ⟨n, value, collation⟩ := g
  have heq : GroupingSpec.pieces ⟨n, value, collation⟩ ++ next =
      .varName n :: ((value.toList.flatMap fun v => [.mark ":=", v.piece]) ++
        (collationPieces collation ++ next)) := by
    simp [GroupingSpec.pieces]
  rw [heq] at h
  have hcollation := follows_collation collation hnext
  obtain ⟨text₁, h₁, hle₁, hread₁⟩ : ReadsUpTo f saved .operator _ rest (.before saved text)
      variableName _ := reads_variable hname h hends
  obtain ⟨text₂, h₂, hle₂, hread₂⟩ : ReadsUpTo f saved .operator (collationPieces collation ++ next) rest
      (.behind saved text₁) (whenEats Terminal.assign single)
      (fun o => o.map Expr.placeless = value.map (SimpleOperand.expr f.module)) := by
    cases value with
    | none =>
      have hdeclines := hcollation.declines h₁ hends .operator Terminal.assign assign_decline
      refine ⟨text₁, h₁, Nat.le_refl _, reads_weaken (reads_whenEats_declined hdeclines) fun o ho => ?_⟩
      rw [ho]
      rfl
    | some v =>
      obtain ⟨inside, hinside, hlt, htake⟩ := (h₁.begun (List.cons_ne_nil _ _)).takes_mark hends
        .operator Terminal.assign rfl (by rfl)
      obtain ⟨mid, hmid, hle, hread⟩ := hs.reads saved (hvalue v rfl) (hinside.begun (List.cons_ne_nil _ _)) hends
        (hcollation.weaken (by decide))
      refine ⟨mid, hmid, hle.trans hlt.le, reads_weaken (reads_whenEats htake hread) fun o ho => ?_⟩
      obtain ⟨e, rfl, he⟩ := ho
      exact congrArg some he
  obtain ⟨mid, hmid, hle, hread₃⟩ := reads_collation f saved h₂ hends hnext
  refine ⟨mid, hmid, hle.trans (hle₂.trans hle₁), reads_bind reads_nextOffset fun offset _ => ?_⟩
  refine reads_bind hread₁ fun name hn => reads_bind hread₂ fun value' hvalue' => ?_
  extract_lets answer
  have hanswer : Reads f (.behind saved text₂) (answer ())
      (GroupingSpec.Denotes f.module ⟨n, value, collation⟩) (.behind saved mid) := by
    refine reads_bind hread₃ fun collation' hcollation' => reads_pure ?_
    rw [hn, hcollation']
    unfold GroupingSpec.Denotes GroupingSpec.map
    rw [hvalue']
  split
  · exact reads_bind (reads_record _ _ _) fun _ _ => hanswer
  · exact hanswer

/-- The direction of an ordering key, which ascends if nothing is said. -/
def directionWords (explicit descending : Bool) : List String :=
  if descending then ["descending"] else if explicit then ["ascending"] else []

/-- The marks behind a direction. -/
def directionFollow : List String := "empty" :: "collation" :: itemFollow

theorem directionFollow_decline :
    (directionFollow.all fun word => [Terminal.descending, Terminal.ascending].all fun r =>
      Scan.declinesAt .operator r (Piece.front (.mark word))) = true := by
  rw [Scan.declinesAt_eq]
  rfl

theorem collationFollow_decline :
    (("collation" :: itemFollow).all fun word => [Terminal.emptyGreatest, Terminal.emptyLeast].all fun r =>
      Scan.declinesAt .operator r (Piece.front (.mark word))) = true := by
  rw [Scan.declinesAt_eq]
  rfl

theorem reads_direction (f : Frame) (saved : List LexicalState) (explicit descending : Bool)
    (h : Spaced (marks (directionWords explicit descending) ++ next) text rest) (hends : endsToken rest)
    (hnext : Follows directionFollow next) :
    ReadsUpTo f saved .operator next rest (.behind saved text)
      (eatFirst [(Terminal.descending, true), (Terminal.ascending, false)])
      (fun o => o.getD false = descending) := by
  cases descending with
  | true =>
    obtain ⟨mid, hmid, hlt, htake⟩ := (h.begun (List.cons_ne_nil _ _)).takes_mark hends .operator
      Terminal.descending rfl (by rfl)
    have hread : Reads f (.behind saved text)
        (eatFirst ([] ++ (Terminal.descending, true) :: [(Terminal.ascending, false)])) _ _ :=
      reads_eatFirst (fun _ ho => absurd ho List.not_mem_nil) htake
    refine ⟨mid, hmid, hlt.le, reads_leave (reads_weaken hread fun o ho => ?_)⟩
    rw [ho]
    rfl
  | false =>
    cases explicit with
    | true =>
      have hbegun := h.begun (List.cons_ne_nil _ _)
      obtain ⟨mid, hmid, hlt, htake⟩ := hbegun.takes_mark hends .operator Terminal.ascending rfl (by rfl)
      have hother := hbegun.declines_front hends .operator Terminal.descending (by rfl)
      have hread : Reads f (.behind saved text)
          (eatFirst ([(Terminal.descending, true)] ++ (Terminal.ascending, false) :: [])) _ _ :=
        reads_eatFirst (List.forall_mem_singleton.2 hother) htake
      refine ⟨mid, hmid, hlt.le, reads_leave (reads_weaken hread fun o ho => ?_)⟩
      rw [ho]
      rfl
    | false =>
      have hdeclines := hnext.declines_all h hends .operator directionFollow_decline
      refine ⟨text, h, Nat.le_refl _, ?_⟩
      refine reads_weaken (reads_eatFirst_declined (List.forall_mem_cons.2
        ⟨hdeclines _ (by simp), List.forall_mem_singleton.2 (hdeclines _ (by simp))⟩)) fun o ho => ?_
      rw [ho]
      rfl

theorem reads_emptyOrder (f : Frame) (saved : List LexicalState) {empty : Option EmptyOrder}
    (h : Spaced ((empty.toList.flatMap fun e => marks ["empty", e.word]) ++ next) text rest)
    (hends : endsToken rest) (hnext : Follows ("collation" :: itemFollow) next) :
    ReadsUpTo f saved .operator next rest (.behind saved text)
      (eatFirst [(Terminal.emptyGreatest, EmptyOrder.greatest), (Terminal.emptyLeast, .least)])
      (fun o => o = empty) := by
  cases empty with
  | none =>
    have hdeclines := hnext.declines_all h hends .operator collationFollow_decline
    exact ⟨text, h, Nat.le_refl _, reads_eatFirst_declined (List.forall_mem_cons.2
      ⟨hdeclines _ (by simp), List.forall_mem_singleton.2 (hdeclines _ (by simp))⟩)⟩
  | some empty =>
    cases empty with
    | greatest =>
      have htext : Begun (marks ["empty", "greatest"] ++ next) text rest := h.begun (List.cons_ne_nil _ _)
      obtain ⟨mid, hmid, hlt, htake⟩ := htext.takes hends .operator Terminal.emptyGreatest rfl (by rfl)
      have hread : Reads f (.behind saved text) (eatFirst ([] ++
          (Terminal.emptyGreatest, EmptyOrder.greatest) :: [(Terminal.emptyLeast, .least)])) _ _ :=
        reads_eatFirst (fun _ ho => absurd ho List.not_mem_nil) htake
      exact ⟨mid, hmid, hlt.le, reads_leave hread⟩
    | least =>
      have htext : Begun (marks ["empty", "least"] ++ next) text rest := h.begun (List.cons_ne_nil _ _)
      obtain ⟨mid, hmid, hlt, htake⟩ := htext.takes hends .operator Terminal.emptyLeast rfl (by rfl)
      have hother := htext.declines (List.cons_ne_nil _ _) hends .operator Terminal.emptyGreatest (by rfl)
      have hread : Reads f (.behind saved text) (eatFirst
          ([(Terminal.emptyGreatest, EmptyOrder.greatest)] ++ (Terminal.emptyLeast, EmptyOrder.least) :: [])) _ _ :=
        reads_eatFirst (List.forall_mem_singleton.2 hother) htake
      exact ⟨mid, hmid, hlt.le, reads_leave hread⟩

theorem reads_orderSpec {s : OrderSpec SimpleOperand} (explicit : Bool) (hs : ReadsOperands f single)
    (hkey : s.key.Fits f.scope) (hends : endsToken rest) :
    ReadsListed f saved rest (s.pieces explicit) (orderSpec single) (s.Denotes f.module) := by
  intro text next hsize h hnext
  obtain ⟨key, descending, empty, collation⟩ := s
  have heq : OrderSpec.pieces explicit ⟨key, descending, empty, collation⟩ ++ next =
      key.piece :: (marks (directionWords explicit descending) ++
        ((empty.toList.flatMap fun e => marks ["empty", e.word]) ++
          (collationPieces collation ++ next))) := by
    simp only [OrderSpec.pieces, directionWords, List.cons_append, List.append_assoc]
  rw [heq] at h
  have hcollation := follows_collation collation hnext
  have hempty : Follows directionFollow ((empty.toList.flatMap fun e => marks ["empty", e.word]) ++
      (collationPieces collation ++ next)) := by
    cases empty with
    | none => exact hcollation.weaken (List.subset_cons_self _ _)
    | some empty => exact .mark List.mem_cons_self _
  have hdirection : Follows operandFollow (marks (directionWords explicit descending) ++
      ((empty.toList.flatMap fun e => marks ["empty", e.word]) ++
        (collationPieces collation ++ next))) := by
    unfold directionWords
    split
    · exact .mark (by simp [operandFollow]) _
    · split
      · exact .mark (by simp [operandFollow]) _
      · exact hempty.weaken (by decide)
  obtain ⟨text₁, h₁, hle₁, hread₁⟩ := hs.reads saved hkey h hends hdirection
  obtain ⟨text₂, h₂, hle₂, hread₂⟩ := reads_direction f saved explicit descending h₁ hends hempty
  obtain ⟨text₃, h₃, hle₃, hread₃⟩ := reads_emptyOrder f saved h₂ hends hcollation
  obtain ⟨mid, hmid, hle, hread₄⟩ := reads_collation f saved h₃ hends hnext
  refine ⟨mid, hmid, hle.trans (hle₃.trans (hle₂.trans hle₁)), reads_bind hread₁ fun key' hkey' => ?_⟩
  refine reads_bind hread₂ fun direction hd => reads_bind hread₃ fun empty' he => ?_
  refine reads_bind hread₄ fun collation' hc => reads_pure ?_
  rw [hd, he, hc]
  unfold OrderSpec.Denotes OrderSpec.map
  rw [hkey']

/-! ### Orderings and groupings -/

theorem orderWords_decline :
    (["return"].all fun word => [Terminal.stableOrderBy, Terminal.orderBy].all fun r =>
      Scan.declinesAt .operator r (Piece.front (.mark word))) = true := by
  rw [Scan.declinesAt_eq]
  rfl

/-- The keywords of an ordering. -/
theorem reads_orderWords (f : Frame) (saved : List LexicalState) (stable : Bool)
    (h : Spaced (marks (if stable then ["stable", "order", "by"] else ["order", "by"]) ++ next) text rest)
    (hends : endsToken rest) :
    ReadsUpTo f saved .expression next rest (.behind saved text)
      (eatFirst [(Terminal.stableOrderBy, true), (Terminal.orderBy, false)])
      (fun o => o = some stable) := by
  cases stable with
  | true =>
    have htext : Begun (marks ["stable", "order", "by"] ++ next) text rest := h.begun (List.cons_ne_nil _ _)
    obtain ⟨mid, hmid, hlt, htake⟩ := htext.takes hends .operator Terminal.stableOrderBy rfl (by rfl)
    have hread : Reads f (.behind saved text)
        (eatFirst ([] ++ (Terminal.stableOrderBy, true) :: [(Terminal.orderBy, false)])) _ _ :=
      reads_eatFirst (fun _ ho => absurd ho List.not_mem_nil) htake
    exact ⟨mid, hmid, hlt.le, reads_leave hread⟩
  | false =>
    have htext : Begun (marks ["order", "by"] ++ next) text rest := h.begun (List.cons_ne_nil _ _)
    obtain ⟨mid, hmid, hlt, htake⟩ := htext.takes hends .operator Terminal.orderBy rfl (by rfl)
    have hother := htext.declines (List.cons_ne_nil _ _) hends .operator Terminal.stableOrderBy (by rfl)
    have hread : Reads f (.behind saved text)
        (eatFirst ([(Terminal.stableOrderBy, true)] ++ (Terminal.orderBy, false) :: [])) _ _ :=
      reads_eatFirst (List.forall_mem_singleton.2 hother) htake
    exact ⟨mid, hmid, hlt.le, reads_leave hread⟩

/-- An ordering is read if there is one. -/
theorem reads_ordering {q : Flwor SimpleOperand} (explicit : Nat → Bool) (hs : ReadsOperands f single)
    (hq : q.Fits f.scope) (hw : q.WellFormed) (hsize : text.length ≤ f.size)
    (h : Spaced (q.orderPieces explicit ++ next) text rest) (hends : endsToken rest)
    (hnext : Follows ["return"] next) :
    ReadsUpTo f saved .operator next rest (.behind saved text) (ordering single)
      (fun o => o.1 = q.stable ∧ o.2.map (OrderSpec.map Expr.placeless) =
        q.orderBy.map (OrderSpec.map (SimpleOperand.expr f.module))) := by
  by_cases hnone : q.orderBy = []
  · have hstable : q.stable = false := by
      rw [← Bool.not_eq_true]
      exact fun hstable => hw.ordered hstable hnone
    have heq : q.orderPieces explicit = [] := by simp [Flwor.orderPieces, hnone]
    rw [heq] at h
    have hdeclines := hnext.declines_all h hends .operator orderWords_decline
    refine ⟨text, h, Nat.le_refl _, ?_⟩
    refine reads_bind (reads_eatFirst_declined (List.forall_mem_cons.2
      ⟨hdeclines _ (by simp), List.forall_mem_singleton.2 (hdeclines _ (by simp))⟩)) fun o ho => ?_
    rw [ho, hnone, hstable]
    exact reads_pure ⟨rfl, rfl⟩
  · have heq : q.orderPieces explicit ++ next =
        marks (if q.stable then ["stable", "order", "by"] else ["order", "by"]) ++
          (listPieces (fun s : OrderSpec SimpleOperand × Nat => s.1.pieces (explicit s.2)) q.orderBy.zipIdx ++
            next) := by
      rw [Flwor.orderPieces, if_neg (by simpa using hnone), List.append_assoc]
    rw [heq] at h
    obtain ⟨text₁, h₁, hle₁, hread₁⟩ := reads_orderWords f saved q.stable h hends
    change text₁.length ≤ text.length at hle₁
    have hitems : ∀ s ∈ q.orderBy.zipIdx, ReadsListed f saved rest (s.1.pieces (explicit s.2))
        (orderSpec single) (s.1.Denotes f.module) :=
      fun s hmem => reads_orderSpec _ hs (hq.keys s.1 (List.fst_mem_of_mem_zipIdx hmem)) hends
    obtain ⟨mid, hmid, hle, hread₂⟩ := reads_separated (by simpa using hnone) hitems (hle₁.trans hsize)
      (h₁.begun (by simp [hnext.ne_nil])) hends (hnext.weaken (by decide))
    refine ⟨mid, hmid, hle.trans hle₁, reads_bind hread₁ fun stable hstable => ?_⟩
    rw [hstable]
    refine reads_bind hread₂ fun specs hspecs => reads_pure ⟨rfl, ?_⟩
    have hmap : specs.map (OrderSpec.map Expr.placeless) =
        q.orderBy.zipIdx.map fun s => s.1.map (SimpleOperand.expr f.module) := map_eq_of_forall₂ hspecs
    have hfst : (q.orderBy.zipIdx.map Prod.fst).map (OrderSpec.map (SimpleOperand.expr f.module)) =
        q.orderBy.zipIdx.map fun s => s.1.map (SimpleOperand.expr f.module) := List.map_map
    rw [List.zipIdx_map_fst] at hfst
    rw [hmap, hfst]

/-- The keywords that come behind a grouping and the clauses behind it. -/
def resultWords : List String := ["stable", "order", "return"]

/-- The clauses behind a grouping are read up to the ordering. -/
theorem reads_postGroup {cs : List (Clause SimpleOperand)} (hs : ReadsOperands f single)
    (hfits : ∀ c ∈ cs, c.Fits f.scope) (hwell : ∀ c ∈ cs, c.WellFormed) (hdepth : f.depth < f.maxDepth)
    (hsize : text.length ≤ f.size) (h : Spaced (cs.flatMap Clause.pieces ++ next) text rest)
    (hends : endsToken rest) (hnext : Follows resultWords next) :
    ReadsUpTo f saved .operator next rest (.behind saved text) (many (postGroupClause single))
      (List.Forall₂ (Clause.Denotes f.module) cs) := by
  have hclause : ∀ c ∈ cs, ∀ text next, text.length ≤ f.size → Spaced (c.pieces ++ next) text rest →
      Follows clauseWords next → ReadsUpTo f saved .operator next rest (.behind saved text)
        (postGroupClause single) (fun o => ∃ c', o = some c' ∧ c.Denotes f.module c') := by
    intro c hc text next hsize h hnext
    obtain ⟨mid, hmid, hle, hread⟩ :=
      reads_clause saved hs (hfits c hc) (hwell c hc) hdepth hsize h hends hnext
    refine ⟨mid, hmid, hle, reads_bind hread fun o ho => ?_⟩
    obtain ⟨c', rfl, hc'⟩ := ho
    exact reads_pure ⟨c', rfl, hc'⟩
  have hstop (text : List Char) (htext : Spaced next text rest) : Reads f (.behind saved text)
      (postGroupClause single) (fun o => o = none) (.behind saved text) := by
    have hgroup := hnext.declines htext hends .operator Terminal.groupBy (by rfl)
    have hnone : Reads f (.behind saved text) (clause single) (fun o => o = none) (.behind saved text) :=
      reads_clause_declined htext hends (hnext.weaken (by decide))
    refine reads_bind hnone fun o ho => ?_
    rw [ho]
    exact reads_ifEat_declined hgroup (reads_pure rfl)
  exact reads_clauses hclause hstop hsize h (hnext.weaken (by decide))

/-- A grouping is read with the clauses behind it if there is one. -/
theorem reads_grouping (saved : List LexicalState) {q : Flwor SimpleOperand} (bound : List ExpandedName)
    (hs : ReadsOperands f single) (hq : q.Fits f.scope) (hw : q.WellFormed)
    (hdepth : f.depth < f.maxDepth) (hsize : text.length ≤ f.size)
    (h : Spaced (q.groupPieces ++ next) text rest) (hends : endsToken rest)
    (hnext : Follows resultWords next) :
    ∃ (grouped : Bool) (l : Place) (behind mid : List Char), Spaced next mid rest ∧
      mid.length ≤ text.length ∧
        Reads f (.behind saved text) (eat Terminal.groupBy) (fun b => b = grouped) l ∧
        Reads f l (if grouped = true then separatedBy Terminal.comma (groupingSpec single bound) else pure [])
          (fun gs => gs.map (GroupingSpec.map Expr.placeless) =
            q.groupBy.map (GroupingSpec.map (SimpleOperand.expr f.module))) (.behind saved behind) ∧
        Reads f (.behind saved behind) (if grouped = true then many (postGroupClause single) else pure [])
          (fun cs => cs.map (Clause.map Expr.placeless fun _ => 0) =
            q.postGroup.map (Clause.map (SimpleOperand.expr f.module) fun _ => 0)) (.behind saved mid) := by
  by_cases hnone : q.groupBy = []
  · have hpost : q.postGroup = [] := by
      by_contra hpost
      exact hw.grouped hpost hnone
    have heq : q.groupPieces = [] := by simp [Flwor.groupPieces, hnone]
    rw [heq] at h
    rw [hnone, hpost]
    have hdeclines := hnext.declines h hends .operator Terminal.groupBy (by rfl)
    exact ⟨false, _, text, text, h, Nat.le_refl _, reads_eat_declined hdeclines, reads_pure rfl, reads_pure rfl⟩
  · have heq : q.groupPieces ++ next = marks ["group", "by"] ++
        (listPieces GroupingSpec.pieces q.groupBy ++ (q.postGroup.flatMap Clause.pieces ++ next)) := by
      rw [Flwor.groupPieces, if_neg (by simpa using hnone), List.append_assoc, List.append_assoc]
    rw [heq] at h
    have hfollows : Follows clauseWords (q.postGroup.flatMap Clause.pieces ++ next) :=
      follows_clauses (hnext.weaken (by decide))
    have htext : Begun (marks ["group", "by"] ++ _) text rest := h.begun (List.cons_ne_nil _ _)
    obtain ⟨inside, hinside, hlt, htake⟩ := htext.takes hends .operator Terminal.groupBy rfl (by rfl)
    have hitems : ∀ g ∈ q.groupBy, ReadsListed f saved rest g.pieces (groupingSpec single bound)
        (g.Denotes f.module) :=
      fun g hg => reads_groupingSpec bound hs (hq.names g hg) (hq.values g hg) hends
    obtain ⟨behind, hbehind, hle, hkeys⟩ := reads_separated hnone hitems (hlt.le.trans hsize)
      (hinside.begun (by simp [hfollows.ne_nil])) hends hfollows
    change behind.length ≤ inside.length at hle
    obtain ⟨mid, hmid, hle', hclauses⟩ : ReadsUpTo f saved .operator next rest (.behind saved behind) _ _ :=
      reads_postGroup hs (fun c hc => hq.clauses c (List.mem_append_right _ hc))
        (fun c hc => hw.each c (List.mem_append_right _ hc)) hdepth (by omega) hbehind hends hnext
    refine ⟨true, _, behind, mid, hmid, hle'.trans (hle.trans hlt.le), reads_eat htake, ?_, ?_⟩
    · exact reads_forget (reads_weaken hkeys fun _ hgs => map_eq_of_forall₂ hgs)
    · exact reads_weaken hclauses fun _ hcs => map_eq_of_forall₂ hcs

end Grammar

/-! ### The condition that ends the clauses -/

namespace Clause

variable {ε : Type}

theorem splitCondition_of_not_condition {cs : List (Clause ε)}
    (h : ∀ c ∈ cs.getLast?, ¬c.isCondition) : splitCondition cs = (cs, none) := by
  unfold splitCondition
  split
  · rename_i condition hlast
    exact absurd rfl (h _ hlast)
  · rfl

theorem splitCondition_append (cs : List (Clause ε)) (condition : ε) :
    splitCondition (cs ++ [filter condition]) = (cs, some condition) := by
  unfold splitCondition
  rw [List.getLast?_concat]
  exact Prod.ext List.dropLast_concat rfl

end Clause

/-- The clauses of a query are told from its condition. -/
theorem Flwor.splitCondition_clauses {ε : Type} {q : Flwor ε} (hw : q.WellFormed) :
    Clause.splitCondition (q.clauses ++ q.condition.toList.map .filter) = (q.clauses, q.condition) := by
  cases hcondition : q.condition with
  | none =>
    have hlast := hw.condition (by rw [hcondition]; rfl)
    simpa using Clause.splitCondition_of_not_condition hlast
  | some condition => exact Clause.splitCondition_append q.clauses condition

/-! ### Queries -/

namespace Grammar

variable {f : Frame} {saved : List LexicalState} {single : Parser Expr} {text mid rest : List Char}

/-- A query is read up to what ends its result. -/
theorem reads_flwor {q : Flwor SimpleOperand} (explicit : Nat → Bool) (hs : ReadsOperands f single)
    (hw : q.WellFormed) (hq : q.Fits f.scope) (hdepth : f.depth < f.maxDepth)
    (hsize : text.length ≤ f.size) (h : Begun (q.pieces explicit) text rest) (hrest : EndsOperand rest) :
    Reads f (.before saved text) (flwor single)
      (fun o => ∃ e, o = some e ∧ e.placeless = .mk (.flwor (q.exprs f.module)) 0 f.module)
      (.behind saved rest) := by
  have hends := hrest.colon.ends List.mem_cons_self
  obtain ⟨first, more, hclauses⟩ := List.exists_cons_of_ne_nil hw.clauses
  have heq : q.pieces explicit = first.pieces ++
      ((more ++ q.condition.toList.map Clause.filter).flatMap Clause.pieces ++
        (q.groupPieces ++ (q.orderPieces explicit ++ [.mark "return", q.result.piece]))) := by
    simp [Flwor.pieces, hclauses, List.flatMap_map]
  rw [heq] at h
  have hreturn : Follows ["return"] [.mark "return", q.result.piece] := .mark List.mem_cons_self _
  have horder : Follows resultWords (q.orderPieces explicit ++ [.mark "return", q.result.piece]) := by
    unfold Flwor.orderPieces
    split
    · exact hreturn.weaken (by decide)
    · split
      · exact .mark (by simp [resultWords]) _
      · exact .mark (by simp [resultWords]) _
  have hgroup : Follows endWords
      (q.groupPieces ++ (q.orderPieces explicit ++ [.mark "return", q.result.piece])) := by
    unfold Flwor.groupPieces
    split
    · exact horder.weaken (by decide)
    · exact .mark (by simp [endWords]) _
  have hall : ∀ c ∈ first :: (more ++ q.condition.toList.map Clause.filter),
      c.Fits f.scope ∧ c.WellFormed := by
    intro c hc
    rw [← List.cons_append, ← hclauses] at hc
    rcases List.mem_append.1 hc with hc | hc
    · exact ⟨hq.clauses c (List.mem_append_left _ hc), hw.each c (List.mem_append_left _ hc)⟩
    · obtain ⟨condition, hmem, rfl⟩ := List.mem_map.1 hc
      exact ⟨hq.condition condition (Option.mem_toList.1 hmem), trivial⟩
  have hinitial : first.isInitial := hw.initial first (by rw [hclauses]; rfl)
  obtain ⟨text₁, h₁, hle₁, hread₁⟩ : ReadsUpTo f saved .operator _ rest (.before saved text)
      (initialClause single) _ :=
    reads_initialClause hs (by decide) hdepth hsize hends
      (follows_clauses (hgroup.weaken (by decide))) (hall first List.mem_cons_self).1
      (hall first List.mem_cons_self).2 hinitial h
  change text₁.length ≤ text.length at hle₁
  obtain ⟨text₂, h₂, hle₂, hread₂⟩ : ReadsUpTo f saved .operator _ rest (.behind saved text₁)
      (many (clause single)) _ :=
    reads_clauses (fun c hc text next hsize h hnext =>
        reads_clause saved hs (hall c (List.mem_cons_of_mem _ hc)).1 (hall c (List.mem_cons_of_mem _ hc)).2
          hdepth hsize h hends hnext)
      (fun text h => reads_clause_declined h hends hgroup) (hle₁.trans hsize) h₁
      (hgroup.weaken (by decide))
  change text₂.length ≤ text₁.length at hle₂
  refine reads_bind reads_nextOffset fun offset _ => ?_
  refine reads_bind hread₁ fun o ho => ?_
  obtain ⟨first', rfl, hfirst⟩ := ho
  refine reads_bind hread₂ fun more' hmore => ?_
  -- The condition is taken off the clauses that were read as it is off those that are written.
  have hsplit : (Clause.splitCondition (first' :: more')).1.map (Clause.map Expr.placeless fun _ => 0) =
        q.clauses.map (Clause.map (SimpleOperand.expr f.module) fun _ => 0) ∧
      (Clause.splitCondition (first' :: more')).2.map Expr.placeless =
        q.condition.map (SimpleOperand.expr f.module) := by
    have hmap : (first' :: more').map (Clause.map Expr.placeless fun _ => 0) =
        (q.clauses ++ q.condition.toList.map Clause.filter).map
          (Clause.map (SimpleOperand.expr f.module) fun _ => 0) := by
      rw [hclauses]
      exact map_eq_of_forall₂ (.cons hfirst hmore)
    have hpair := congrArg Clause.splitCondition hmap
    rw [Clause.splitCondition_map, Clause.splitCondition_map, Flwor.splitCondition_clauses hw] at hpair
    exact Prod.mk.inj hpair
  generalize Clause.splitCondition (first' :: more') = split at hsplit ⊢
  obtain ⟨clauses, condition⟩ := split
  obtain ⟨hclauses', hcondition'⟩ := hsplit
  obtain ⟨grouped, l, behind, text₃, h₃, hle₃, heat, hkeys, hpost⟩ :=
    reads_grouping saved (clauses.flatMap Clause.boundNames) hs hq hw hdepth (by omega) h₂ hends horder
  obtain ⟨text₄, h₄, -, hordering⟩ : ReadsUpTo f saved .operator _ rest (.behind saved text₃)
      (ordering single) _ := reads_ordering explicit hs hq hw (by omega) h₃ hends hreturn
  obtain ⟨text₅, h₅, -, hword⟩ := reads_keyword f saved .operator Terminal.returnClause
    (h₄.begun (List.cons_ne_nil _ _)) hends rfl rfl (by rfl)
  have hresult : Reads f (.before saved text₅) single
      (fun e => e.placeless = q.result.expr f.module) (.behind saved rest) :=
    hs saved q.result text₅ rest hq.result (h₅.begun (List.cons_ne_nil _ _)) hrest
  refine reads_bind heat fun grouped' hgrouped => ?_
  rw [hgrouped]
  refine reads_choice hkeys fun groupBy hgroupBy => reads_choice hpost fun postGroup hpostGroup => ?_
  refine reads_bind hordering fun order horder' => ?_
  refine reads_bind hword fun _ _ => reads_bind hresult fun result hresult' => ?_
  have hdenotes : q.Denotes f.module
      ⟨clauses, condition, groupBy, postGroup, order.1, order.2, result⟩ := by
    unfold Flwor.Denotes Flwor.exprs Flwor.map
    rw [hclauses', hcondition', hgroupBy, hpostGroup, horder'.1, horder'.2, hresult']
  refine reads_bind (reads_node _ offset) fun e he => reads_pure ⟨e, rfl, ?_⟩
  rw [he]
  refine (Expr.moved_mk _ _ _).trans ?_
  exact congrArg (fun q => Expr.mk (.flwor q) 0 f.module) hdenotes

/-- A query is a single expression. -/
theorem reads_query {q : Flwor SimpleOperand} (explicit : Nat → Bool) (k : Nat) (hw : q.WellFormed)
    (hq : q.Fits ⟨f.context, f.extensions, f.maxDepth - (f.depth + 1)⟩)
    (hdepth : f.depth + 1 < f.maxDepth) (hsize : text.length ≤ f.size)
    (h : Begun (q.pieces explicit) text rest) (hrest : EndsOperand rest) :
    Reads f (.before saved text) (singleWithin (k + 2))
      (fun e => e.placeless = .mk (.flwor (q.exprs f.module)) 0 f.module) (.behind saved rest) := by
  refine reads_nested (by omega) ?_
  have hs : ReadsOperands { f with depth := f.depth + 1 } (singleWithin (k + 1)) :=
    readsOperands_single _ k hdepth
  have hread : Reads { f with depth := f.depth + 1 } (.before saved text) (flwor (singleWithin (k + 1)))
      (fun o => ∃ e, o = some e ∧ e.placeless = .mk (.flwor (q.exprs f.module)) 0 f.module)
      (.behind saved rest) := reads_flwor explicit hs hw hq hdepth hsize h hrest
  refine reads_bind hread fun o ho => ?_
  obtain ⟨e, rfl, he⟩ := ho
  exact reads_pure he

end Grammar

/-- A query with a condition behind its only clause, a grouping, and an ordering. -/
def Flwor.grouped : Flwor SimpleOperand where
  clauses := [.forEach [⟨⟨none, "x", none⟩, none, true, some ⟨none, "i", none⟩, none, .integer 1, 0⟩]]
  condition := some (.varRef ⟨none, "x", none⟩)
  groupBy := [⟨⟨none, "x", none⟩, none, none⟩]
  postGroup := [.count ⟨none, "n", none⟩]
  stable := false
  orderBy := [⟨.varRef ⟨none, "n", none⟩, true, some .least, none⟩]
  result := .varRef ⟨none, "x", none⟩

end XQuerySyntax
