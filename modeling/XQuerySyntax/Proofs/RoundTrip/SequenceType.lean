import XQuerySyntax.Proofs.RoundTrip.KindTest

/-! Sequence types are read as they are written, wherever they stand. An occurrence indicator belongs to
the innermost type that it can belong to, so a type ends where none comes next; and as keywords are names
of types as well, no parenthesis may come behind a name. -/

namespace XQuerySyntax

open XQuerySyntax.Parser Grammar Glimpse

/-! ### What comes behind a type -/

/-- Nothing comes next, or space does and behind it none of the characters. -/
def Precludes (chars : List Char) (text : List Char) : Prop :=
  text = [] ∨ ∀ c ∈ chars, Shows true [.gap, .unlike c] text

/-- The characters that would go on with a sequence type. -/
def typeGoesOn : List Char := ['(', '?', '*', '+']

/-- The characters that would go on with an item type. An indicator behind a function test would go on
with its result. -/
def ItemType.goesOn (t : ItemType) : List Char :=
  if t.takesIndicator then ['('] else typeGoesOn

variable {chars text rest : List Char} {piece : Piece} {pieces : List Piece}

theorem Precludes.ends {c : Char} (h : Precludes chars text) (hc : c ∈ chars) : endsToken text := by
  rcases h with rfl | h
  · rintro _ ⟨⟩
  · obtain ⟨_, hstarts, -⟩ := h c hc
    exact .of_startsTrivia hstarts

theorem Precludes.weaken {chars' : List Char} (h : Precludes chars text) (hsub : chars' ⊆ chars) :
    Precludes chars' text := h.imp_right fun h c hc => h c (hsub hc)

/-- What a text goes on with behind space is seen from its first characters. -/
theorem Precludes.of_shows {view : List Glimpse} (h : Shows true (.gap :: view) text)
    (hview : chars.all fun c => next? c view = none) : Precludes chars text := by
  obtain ⟨mid, hstarts, hscan, hs⟩ := h
  refine .inr fun c hc => ⟨mid, hstarts, hscan, ?_⟩
  rintro d hd rfl
  obtain ⟨text, rfl⟩ := List.head?_eq_some_iff.1 hd
  obtain ⟨view', hnext, -⟩ := hs.next
  have hnone := List.all_eq_true.1 hview d hc
  rw [hnext] at hnone
  cases hnone

theorem Precludes.of_space (h : Trivia text) : Precludes chars text := by
  by_cases hne : text = []
  · exact .inl hne
  · have hscan : scanTrivia true (text ++ []) = .found () [] := scanTrivia_append h rfl
    have hstarts := h.startsTrivia hne []
    rw [List.append_nil] at hscan hstarts
    refine .inr fun c _ => ⟨[], hstarts, hscan, ?_⟩
    rintro _ ⟨⟩

theorem Spaced.precludes (h : Spaced (piece :: pieces) text rest) (hends : endsToken rest)
    (hpiece : chars.all fun c => next? c piece.front = none) : Precludes chars text := by
  cases h with
  | cons hspace hne hchars htext =>
    have hmid := htext.ends hends
    refine .of_shows ⟨_, hspace.startsTrivia hne _, scanTrivia_append hspace (hchars.settled hmid), ?_⟩ hpiece
    exact hchars.shows_front (hmid.apart _)

/-- A rule that begins with one of the characters is declined. -/
theorem Precludes.declines {c : Char} (h : Precludes chars text) (hc : c ∈ chars)
    (state : LexicalState) (r : Rule) (hr : state.skipsComments && Scan.declines state r [.stop] &&
      Scan.declines state r [.gap, .unlike c]) : Declines state text r := by
  simp only [Bool.and_eq_true] at hr
  obtain ⟨⟨hcomments, hstop⟩, hgap⟩ := hr
  rcases h with rfl | h
  · have hs : Shows state.skipsComments [.stop] [] := rfl
    exact declines_of_view hstop hs
  · refine declines_of_view hgap ?_
    rw [hcomments]
    exact h c hc

/-- Rules are told apart from the pieces that come next and a character that does not come behind. -/
theorem Begun.declines_before {c : Char} (h : Begun pieces text rest) (hrest : Precludes chars rest)
    (hc : c ∈ chars) (state : LexicalState) (r : Rule)
    (hr : Scan.declinesAt state r (Piece.views [.stop] pieces) &&
      Scan.declinesAt state r (Piece.views [.gap, .unlike c] pieces)) : Declines state text r := by
  obtain ⟨hstop, hgap⟩ := Bool.and_eq_true_iff.1 hr
  have hends := hrest.ends hc
  rcases hrest with rfl | hrest
  · have hs : Shows true [.stop] [] := rfl
    exact (h.begins hends hs).declinesAt hstop
  · exact (h.begins hends (hrest c hc)).declinesAt hgap

theorem ItemType.goesOn_subset (t : ItemType) : t.goesOn ⊆ typeGoesOn := by
  unfold goesOn
  split
  · exact fun c hc => List.mem_cons.2 (.inl (List.mem_singleton.1 hc))
  · exact List.Subset.refl _

theorem ItemType.mem_goesOn (t : ItemType) : '(' ∈ t.goesOn := by
  unfold goesOn
  split
  · exact List.mem_cons_self
  · exact List.mem_cons_self

/-! ### What a type begins with -/

/-- The marks that an item type may begin with. -/
def typeMarks : List String := ["(", "empty-sequence", "item", "function"] ++ kindTable.map Prod.fst

/-- A type begins with this piece. -/
def IsTypeHead (piece : Piece) : Prop :=
  (∃ n, piece = .name n) ∨ ∃ word ∈ typeMarks, piece = .mark word

theorem KindTest.pieces_eq (test : KindTest) :
    ∃ args, test.pieces = callPieces test.keyword args := by
  match test with
  | .document none | .document (some _) | .element .. | .attribute .. | .schemaElement _
  | .schemaAttribute _ | .processingInstruction _ | .comment | .text | .namespaceNode
  | .anyKind => exact ⟨_, rfl⟩

theorem KindTest.keyword_mem (test : KindTest) : test.keyword ∈ kindTable.map Prod.fst := by
  cases test <;> simp [keyword, kindTable]

theorem ItemType.head (t : ItemType) :
    ∃ piece pieces, t.pieces = piece :: pieces ∧ IsTypeHead piece := by
  match t with
  | .atomicOrUnion n => exact ⟨.name n, [], rfl, .inl ⟨n, rfl⟩⟩
  | .kindTest test =>
    obtain ⟨args, hargs⟩ := test.pieces_eq
    refine ⟨.mark test.keyword, _, hargs, .inr ⟨_, ?_, rfl⟩⟩
    exact List.mem_append_right _ test.keyword_mem
  | .emptySequence => exact ⟨_, _, rfl, .inr ⟨"empty-sequence", by decide, rfl⟩⟩
  | .item => exact ⟨_, _, rfl, .inr ⟨"item", by decide, rfl⟩⟩
  | .anyFunction | .functionTest [] _ | .functionTest (_ :: _) _ =>
    exact ⟨_, _, rfl, .inr ⟨"function", by decide, rfl⟩⟩
  | .parenthesized _ => exact ⟨_, _, rfl, .inr ⟨"(", by decide, rfl⟩⟩

theorem SequenceType.head (t : SequenceType) :
    ∃ piece pieces, t.pieces = piece :: pieces ∧ IsTypeHead piece := by
  obtain ⟨itemType, occurrence⟩ := t
  obtain ⟨piece, pieces, heq, hhead⟩ := itemType.head
  refine ⟨piece, pieces ++ occurrence.pieces, ?_, hhead⟩
  rw [SequenceType.pieces, heq, List.cons_append]

theorem ItemType.pieces_ne_nil (t : ItemType) : t.pieces ≠ [] := by
  obtain ⟨piece, pieces, heq, -⟩ := t.head
  rw [heq]
  exact List.cons_ne_nil _ _

theorem SequenceType.pieces_ne_nil (t : SequenceType) : t.pieces ≠ [] := by
  obtain ⟨piece, pieces, heq, -⟩ := t.head
  rw [heq]
  exact List.cons_ne_nil _ _

/-- No type begins with a closing parenthesis or a star. -/
theorem typeMarks_front :
    (typeMarks.all fun word => ['*', ')'].all fun c =>
      next? c (Piece.front (.mark word)) = none) = true := by
  rfl

theorem typeMarks_decline :
    (typeMarks.all fun word =>
      Scan.declinesAt .kindTest Terminal.kindClose (Piece.front (.mark word))) = true := by
  rw [Scan.declinesAt_eq]
  rfl

theorem IsTypeHead.front (h : IsTypeHead piece) :
    ['*', ')'].all fun c => next? c piece.front = none := by
  rcases h with ⟨n, rfl⟩ | ⟨word, hword, rfl⟩
  · rfl
  · exact List.all_eq_true.1 typeMarks_front word hword

theorem IsTypeHead.declines_close (h : IsTypeHead piece) (htext : Begun (piece :: pieces) text rest)
    (hends : endsToken rest) : Declines .kindTest text Terminal.kindClose := by
  refine htext.declines_front hends .kindTest Terminal.kindClose ?_
  rcases h with ⟨n, rfl⟩ | ⟨word, hword, rfl⟩
  · rfl
  · exact List.all_eq_true.1 typeMarks_decline word hword

/-! ### Rules that compete for the beginning of a type -/

/-- The rules that are tried in front of those of kind tests. -/
def typeRules : List Rule :=
  [Terminal.emptySequence, Terminal.anyItem, Terminal.anyFunction, Terminal.functionTest,
    Terminal.typeParenOpen]

/-- A name of a type is not taken for a keyword, since no parenthesis comes behind it. -/
theorem typeRules_decline_name (n : QName) :
    ((typeRules ++ kindRules).all fun r =>
      Scan.declinesAt .kindTest r (Piece.views [.stop] [.name n]) &&
        Scan.declinesAt .kindTest r (Piece.views [.gap, .unlike '('] [.name n])) = true := by
  have hall : ([[Glimpse.name], [.name, .char ':', .name]].all fun view =>
      (typeRules ++ kindRules).all fun r => Scan.declinesAt .kindTest r (view ++ [Glimpse.stop]) &&
        Scan.declinesAt .kindTest r (view ++ [Glimpse.gap, .unlike '('])) = true := by
    rw [Scan.declinesAt_eq]
    rfl
  refine List.all_eq_true.1 hall n.view ?_
  unfold QName.view
  split <;> simp

theorem declines_of_name {n : QName} (h : Begun [.name n] text rest) (hrest : Precludes ['('] rest) :
    ∀ r ∈ typeRules ++ kindRules, Declines .kindTest text r :=
  fun r hr => h.declines_before hrest List.mem_cons_self .kindTest r
    (List.all_eq_true.1 (typeRules_decline_name n) r hr)

/-- A kind test is told from the other types by its keyword. -/
theorem typeRules_decline_kind :
    (kindTable.all fun entry => typeRules.all fun r =>
      Scan.declinesAt .kindTest r (Piece.views [] (marks [entry.1, "("]))) = true := by
  rw [Scan.declinesAt_eq]
  rfl

theorem declines_of_kind {test : KindTest} (h : Begun test.pieces text rest) (hends : endsToken rest) :
    ∀ r ∈ typeRules, Declines .kindTest text r := by
  intro r hr
  obtain ⟨args, hargs⟩ := test.pieces_eq
  have hpieces : test.pieces = marks [test.keyword, "("] ++ (args ++ [Piece.mark ")"]) := hargs
  rw [hpieces] at h
  obtain ⟨entry, hentry, heq⟩ := List.mem_map.1 test.keyword_mem
  have hdeclines := List.all_eq_true.1 (List.all_eq_true.1 typeRules_decline_kind entry hentry) r hr
  rw [heq] at hdeclines
  exact h.declines (List.cons_ne_nil _ _) hends .kindTest r hdeclines

/-! ### Reading types -/

namespace Grammar

variable {f : Frame} {saved : List LexicalState} {state resume : LexicalState} {n : Nat}

theorem reads_closing (f : Frame) (saved : List LexicalState)
    (h : Spaced (.mark ")" :: pieces) text rest) (hends : endsToken rest) :
    ∃ mid, Spaced pieces mid rest ∧ mid.length < text.length ∧
      Reads f (.inType saved text) (expect Terminal.kindClose) (fun _ => True) (.inType saved mid) := by
  obtain ⟨mid, hmid, hlt, htake⟩ :=
    (h.begun (List.cons_ne_nil _ _)).takes_mark hends .kindTest Terminal.kindClose rfl (by rfl)
  exact ⟨mid, hmid, hlt, reads_leave (reads_expect htake)⟩

theorem reads_occurrence (f : Frame) (saved : List LexicalState) (times : Occurrence)
    (h : Spaced times.pieces text rest) (hrest : Precludes typeGoesOn rest) :
    Reads f (.at text ⟨.occurrence, saved⟩) occurrence (fun o => o = times)
      (.at rest ⟨.occurrence, saved⟩) := by
  have hends : endsToken rest := hrest.ends List.mem_cons_self
  -- Which indicator comes next is told by its character.
  have hindicator {mark : String} (before : List (Rule × Occurrence))
      {after : List (Rule × Occurrence)} {r : Rule}
      (hsplit : [(Terminal.occursOptional, Occurrence.zeroOrOne),
        (Terminal.occursZeroOrMore, .zeroOrMore), (Terminal.occursOneOrMore, .oneOrMore)] =
          before ++ (r, times) :: after)
      (h : Spaced [.mark mark] text rest) (hcore : r.extension = .core) (hstay : r.next = .stay)
      (hphrase : r.isPhrase .occurrence mark [] [])
      (hbefore : ∀ o ∈ before, Scan.declinesAt .occurrence o.1 (Piece.front (.mark mark))) :
      Reads f (.at text ⟨.occurrence, saved⟩) occurrence (fun o => o = times)
        (.at rest ⟨.occurrence, saved⟩) := by
    have hbegun : Begun [.mark mark] text rest := h.begun (List.cons_ne_nil _ _)
    obtain ⟨mid, hmid, -, htake⟩ := hbegun.takes_mark hends .occurrence r hcore hphrase
    cases hmid
    have hfirst : Reads f (.at text ⟨.occurrence, saved⟩) (eatFirst (before ++ (r, times) :: after))
        (fun o => o = some times) ⟨rest, (⟨.occurrence, saved⟩ : StateStack).apply r.next, some []⟩ :=
      reads_eatFirst (fun o ho => hbegun.declines_front hends .occurrence o.1 (hbefore o ho)) htake
    rw [← hsplit, hstay] at hfirst
    refine reads_bind hfirst fun o ho => ?_
    rw [ho]
    exact reads_forget (reads_pure rfl)
  cases times with
  | exactlyOne =>
    cases h
    have hnone : ∀ o ∈ [(Terminal.occursOptional, Occurrence.zeroOrOne),
        (Terminal.occursZeroOrMore, .zeroOrMore), (Terminal.occursOneOrMore, .oneOrMore)],
        Declines .occurrence text o.1 := by
      intro o ho
      simp only [List.mem_cons, List.not_mem_nil, or_false] at ho
      rcases ho with rfl | rfl | rfl
      · exact hrest.declines (c := '?') (by decide) .occurrence Terminal.occursOptional (by rfl)
      · exact hrest.declines (c := '*') (by decide) .occurrence Terminal.occursZeroOrMore (by rfl)
      · exact hrest.declines (c := '+') (by decide) .occurrence Terminal.occursOneOrMore (by rfl)
    refine reads_bind (reads_eatFirst_declined hnone) fun o ho => ?_
    rw [ho]
    exact reads_pure rfl
  | zeroOrOne =>
    refine hindicator [] rfl h rfl rfl (by rfl) ?_
    exact fun _ ho => absurd ho List.not_mem_nil
  | zeroOrMore =>
    refine hindicator [_] rfl h rfl rfl (by rfl) ?_
    exact List.forall_mem_singleton.2 (by rfl)
  | oneOrMore =>
    refine hindicator [_, _] rfl h rfl rfl (by rfl) ?_
    exact List.forall_mem_cons.2 ⟨by rfl, List.forall_mem_singleton.2 (by rfl)⟩

end Grammar

/-- The item type is read wherever it stands in a type and may be nested so deeply. -/
def ItemType.ReadsIn (t : ItemType) : Prop :=
  ∀ (f : Frame) (saved : List LexicalState) (n : Nat) (text rest : List Char),
    t.WellWritten f.context → f.depth + t.levels ≤ f.maxDepth → text.length ≤ f.size →
      text.length < n → Begun t.pieces text rest → Precludes t.goesOn rest →
        Reads f (.inType saved text) (itemTypeWithin n) (fun t' => t' = t) (.inType saved rest)

/-- The sequence type is read in every lexical state, and the scanner goes on in the given one. -/
def SequenceType.ReadsIn (t : SequenceType) : Prop :=
  ∀ (f : Frame) (saved : List LexicalState) (state resume : LexicalState) (n : Nat)
    (text rest : List Char), t.WellWritten f.context → f.depth + t.levels ≤ f.maxDepth →
      text.length ≤ f.size → text.length < n → Begun t.pieces text rest → Precludes typeGoesOn rest →
        Reads f (.at text ⟨state, saved⟩) (sequenceTypeOf (itemTypeWithin n) resume)
          (fun t' => t' = t) (.at rest ⟨resume, saved⟩)

namespace ItemType

theorem readsIn_item : item.ReadsIn := by
  intro f saved n text rest _ _ _ hn h hrest
  obtain ⟨n, rfl⟩ := Nat.exists_eq_add_of_lt hn
  have hends := hrest.ends List.mem_cons_self
  have htext : Begun (marks ["item", "(", ")"] ++ []) text rest := h
  obtain ⟨mid, hmid, -, htake⟩ := htext.takes hends .kindTest Terminal.anyItem rfl (by rfl)
  cases hmid
  exact reads_ifEat htake (reads_forget (reads_pure rfl))

theorem readsIn_anyFunction : anyFunction.ReadsIn := by
  intro f saved n text rest _ _ _ hn h hrest
  obtain ⟨n, rfl⟩ := Nat.exists_eq_add_of_lt hn
  have hends := hrest.ends List.mem_cons_self
  have htext : Begun (marks ["function", "(", "*", ")"] ++ []) text rest := h
  obtain ⟨mid, hmid, -, htake⟩ := htext.takes hends .kindTest Terminal.anyFunction rfl (by rfl)
  have hitem := htext.declines (List.cons_ne_nil _ _) hends .kindTest Terminal.anyItem (by rfl)
  cases hmid
  exact reads_ifEat_declined hitem (reads_ifEat htake (reads_forget (reads_pure rfl)))

theorem readsIn_atomicOrUnion (name : QName) : (atomicOrUnion name).ReadsIn := by
  intro f saved n text rest hw _ _ hn h hrest
  obtain ⟨n, rfl⟩ := Nat.exists_eq_add_of_lt hn
  have hends := hrest.ends List.mem_cons_self
  have hother := declines_of_name h hrest
  have hname : name.ResolvesIn f.context f.context.elementNamespace? := by
    cases hw
    assumption
  have hkind : ∀ r ∈ kindRules, Declines .kindTest text r :=
    fun r hr => hother r (List.mem_append_right _ hr)
  obtain ⟨mid, hmid, -, htake⟩ := Begun.takes_name h hends .kindTest Terminal.typeName rfl (by rfl)
  cases hmid
  apply reads_ifEat_declined (hother Terminal.anyItem (by simp [typeRules]))
  apply reads_ifEat_declined (hother Terminal.anyFunction (by simp [typeRules]))
  apply reads_ifEat_declined (hother Terminal.functionTest (by simp [typeRules]))
  apply reads_ifEat_declined (hother Terminal.typeParenOpen (by simp [typeRules]))
  refine reads_bind (reads_kindTest_declined hkind) fun o ho => ?_
  rw [ho]
  apply reads_ifEat htake
  refine reads_bind reads_start fun offset _ => reads_caughtName ?_
  refine reads_bind (reads_elementName hname offset) fun n hn => ?_
  rw [hn]
  exact reads_pure rfl

theorem readsIn_kindTest (test : KindTest) : (kindTest test).ReadsIn := by
  intro f saved n text rest hw _ _ hn h hrest
  obtain ⟨n, rfl⟩ := Nat.exists_eq_add_of_lt hn
  have hends := hrest.ends List.mem_cons_self
  have hother := declines_of_kind h hends
  have htest : test.WellWritten f.context := by
    cases hw
    assumption
  have htypes : LexicalState.kindTest ∈ [LexicalState.expression, .kindTest] := by decide
  have htext : Laid (test.pieces ++ []) text rest := by
    rw [List.append_nil]
    exact Begun.laid h hends
  obtain ⟨mid, hmid, hread⟩ := reads_kindTest saved htest htypes htext
  cases hmid
  apply reads_ifEat_declined (hother Terminal.anyItem (by simp [typeRules]))
  apply reads_ifEat_declined (hother Terminal.anyFunction (by simp [typeRules]))
  apply reads_ifEat_declined (hother Terminal.functionTest (by simp [typeRules]))
  apply reads_ifEat_declined (hother Terminal.typeParenOpen (by simp [typeRules]))
  refine reads_bind hread fun o ho => ?_
  rw [ho]
  exact reads_pure rfl

theorem readsIn_parenthesized {inner : ItemType} (hinner : inner.ReadsIn) :
    (parenthesized inner).ReadsIn := by
  intro f saved n text rest hw hdepth hsize hn h hrest
  obtain ⟨n, rfl⟩ := Nat.exists_eq_add_of_lt hn
  have hends := hrest.ends List.mem_cons_self
  obtain ⟨inside, hinside, hlt, htake⟩ :=
    Begun.takes_mark h hends .kindTest Terminal.typeParenOpen rfl (by rfl)
  obtain ⟨close, hcontent, hclosing⟩ := (hinside.begun (by simp)).append inner.pieces_ne_nil
  have hclose : Precludes inner.goesOn close :=
    (hclosing.precludes hends (by rfl)).weaken inner.goesOn_subset
  obtain ⟨mid, hmid, -, hend⟩ := reads_closing f saved hclosing hends
  cases hmid
  have hw' : inner.WellWritten f.context := by
    cases hw
    assumption
  have hread := hinner f saved (text.length + n) inside close hw' hdepth (by omega) (by omega) hcontent hclose
  apply reads_ifEat_declined (Begun.declines_front h hends .kindTest Terminal.anyItem (by rfl))
  apply reads_ifEat_declined (Begun.declines_front h hends .kindTest Terminal.anyFunction (by rfl))
  apply reads_ifEat_declined (Begun.declines_front h hends .kindTest Terminal.functionTest (by rfl))
  apply reads_ifEat htake
  refine reads_bind (reads_forget hread) fun t ht => ?_
  refine reads_bind hend fun _ _ => ?_
  rw [ht]
  exact reads_pure rfl

/-- A function test without parameters, or with some; behind its parenthesis comes the result. -/
theorem functionTest_pieces (params : List SequenceType) (result : SequenceType) :
    ∃ args, (functionTest params result).pieces =
        marks ["function", "("] ++ (args ++ (.mark ")" :: .mark "as" :: result.pieces)) ∧
      ((params = [] ∧ args = []) ∨ ∃ param more, params = param :: more ∧
        args = param.pieces ++ furtherPieces more) := by
  match params with
  | [] => exact ⟨[], rfl, .inl ⟨rfl, rfl⟩⟩
  | param :: more =>
    refine ⟨param.pieces ++ furtherPieces more, ?_, .inr ⟨param, more, rfl, rfl⟩⟩
    simp [pieces, callPieces]

/-- Further parameters with a comma in front of each. -/
theorem reads_furtherTypes (saved : List LexicalState) {f : Frame} {n k : Nat} {text rest : List Char}
    {types : List SequenceType} (htypes : ∀ t ∈ types, t.ReadsIn)
    (hw : ∀ t ∈ types, t.WellWritten f.context) (hdepth : f.depth + levelsOfAll types ≤ f.maxDepth)
    (hsize : text.length ≤ f.size) (hn : text.length < n) (hk : text.length < k)
    (h : Spaced (furtherPieces types ++ .mark ")" :: pieces) text rest) (hends : endsToken rest) :
    ∃ mid, Spaced (.mark ")" :: pieces) mid rest ∧ mid.length ≤ text.length ∧
      Reads f (.inType saved text)
        (manyWithin (whenEats Terminal.kindComma (sequenceTypeOf (itemTypeWithin n) .kindTest)) k)
        (fun ts => ts = types) (.inType saved mid) := by
  induction types generalizing text k with
  | nil =>
    obtain ⟨k, rfl⟩ := Nat.exists_eq_add_of_lt hk
    have hcomma := (Spaced.begun h (by simp [furtherPieces])).declines_front hends .kindTest
      Terminal.kindComma commaView_decline.1
    exact ⟨text, h, Nat.le_refl _, reads_manyWithin_nil (reads_whenEats_declined hcomma)⟩
  | cons type types ih =>
    obtain ⟨k, rfl⟩ := Nat.exists_eq_add_of_lt hk
    have hlevels : levelsOfAll (type :: types) = max type.levels (levelsOfAll types) := rfl
    have hsplit : furtherPieces (type :: types) ++ .mark ")" :: pieces =
        .mark "," :: (type.pieces ++ (furtherPieces types ++ .mark ")" :: pieces)) := by
      simp [furtherPieces]
    rw [hsplit] at h
    obtain ⟨item, hitem, hlt, hcomma⟩ := (h.begun (List.cons_ne_nil _ _)).takes_mark hends .kindTest
      Terminal.kindComma rfl (by rfl)
    obtain ⟨behind, hfirst, hmore⟩ := hitem.append
    have hbegun := hfirst.begun type.pieces_ne_nil
    have hle := hbegun.length_le
    have hbehind : Precludes typeGoesOn behind := by
      cases types with
      | nil => exact hmore.precludes hends (by rfl)
      | cons => exact hmore.precludes hends (by rfl)
    obtain ⟨mid, hmid, hshorter, hrest⟩ := ih (fun t ht => htypes t (List.mem_cons_of_mem type ht))
      (fun t ht => hw t (List.mem_cons_of_mem type ht)) (by omega) (by omega) (by omega)
      (k := text.length + k) (by omega) hmore
    refine ⟨mid, hmid, by omega, ?_⟩
    have hread := htypes type List.mem_cons_self f saved .kindTest .kindTest n item behind
      (hw type List.mem_cons_self) (by omega) (by omega) (by omega) hbegun hbehind
    have hnext : Reads f (.inType saved text)
        (whenEats Terminal.kindComma (sequenceTypeOf (itemTypeWithin n) .kindTest))
        (fun o => ∃ t, o = some t ∧ t = type) (.inType saved behind) :=
      reads_whenEats hcomma (reads_forget hread)
    refine reads_weaken (reads_manyWithin_cons hnext hrest) fun ts hts => ?_
    obtain ⟨t, ts, rfl, rfl, rfl⟩ := hts
    rfl

/-- The parameters of a function test with the parenthesis behind them. -/
theorem reads_params (saved : List LexicalState) {f : Frame} {n : Nat} {text rest : List Char}
    {param : SequenceType} {params : List SequenceType} (htypes : ∀ t ∈ param :: params, t.ReadsIn)
    (hw : ∀ t ∈ param :: params, t.WellWritten f.context)
    (hdepth : f.depth + levelsOfAll (param :: params) ≤ f.maxDepth) (hsize : text.length ≤ f.size)
    (hn : text.length < n)
    (h : Spaced (param.pieces ++ furtherPieces params ++ .mark ")" :: pieces) text rest)
    (hends : endsToken rest) :
    ∃ mid, Spaced (.mark ")" :: pieces) mid rest ∧ mid.length ≤ text.length ∧
      Reads f (.inType saved text)
        (separatedBy Terminal.kindComma (sequenceTypeOf (itemTypeWithin n) .kindTest))
        (fun ts => ts = param :: params) (.inType saved mid) := by
  have hlevels : levelsOfAll (param :: params) = max param.levels (levelsOfAll params) := rfl
  rw [List.append_assoc] at h
  obtain ⟨behind, hfirst, hmore⟩ := h.append
  have hbegun := hfirst.begun param.pieces_ne_nil
  have hle := hbegun.length_le
  have hbehind : Precludes typeGoesOn behind := by
    cases params with
    | nil => exact hmore.precludes hends (by rfl)
    | cons => exact hmore.precludes hends (by rfl)
  have hread := htypes param List.mem_cons_self f saved .kindTest .kindTest n text behind
    (hw param List.mem_cons_self) (by omega) hsize hn hbegun hbehind
  obtain ⟨mid, hmid, hshorter, hrest⟩ := reads_furtherTypes saved (n := n) (k := f.size + 1)
    (fun t ht => htypes t (List.mem_cons_of_mem param ht))
    (fun t ht => hw t (List.mem_cons_of_mem param ht)) (by omega) (by omega) (by omega) (by omega)
    hmore hends
  refine ⟨mid, hmid, by omega, reads_bind hread fun t ht => ?_⟩
  refine reads_bind (reads_many hrest) fun ts hts => ?_
  rw [ht, hts]
  exact reads_pure rfl

theorem readsIn_functionTest {params : List SequenceType} {result : SequenceType}
    (hparams : ∀ t ∈ params, t.ReadsIn) (hresult : result.ReadsIn) :
    (functionTest params result).ReadsIn := by
  intro f saved n text rest hw hdepth hsize hn h hrest
  obtain ⟨n, rfl⟩ := Nat.exists_eq_add_of_lt hn
  have hends := hrest.ends List.mem_cons_self
  have hlevels : (functionTest params result).levels = max (levelsOfAll params) result.levels := rfl
  obtain ⟨hwParams, hwResult⟩ : (∀ t ∈ params, t.WellWritten f.context) ∧
      result.WellWritten f.context := by
    cases hw with
    | functionTest hp hr => exact ⟨hp, hr⟩
  obtain ⟨args, hpieces, hargs⟩ := functionTest_pieces params result
  rw [hpieces] at h
  obtain ⟨inside, hinside, hlt, htake⟩ := h.takes hends .kindTest Terminal.functionTest rfl (by rfl)
  have hitem := h.declines (List.cons_ne_nil _ _) hends .kindTest Terminal.anyItem (by rfl)
  have hany : Declines .kindTest text Terminal.anyFunction := by
    obtain ⟨behind, hfirst, hmore⟩ := h.append (List.cons_ne_nil _ _)
    have hbehind : Precludes ['*'] behind := by
      rcases hargs with ⟨-, rfl⟩ | ⟨param, more, -, rfl⟩
      · exact hmore.precludes hends (by rfl)
      · obtain ⟨piece, pieces, heq, hhead⟩ := param.head
        rw [heq] at hmore
        exact (Spaced.precludes hmore hends hhead.front).weaken (by simp)
    exact hfirst.declines_before hbehind List.mem_cons_self .kindTest Terminal.anyFunction (by rfl)
  -- Behind the parenthesis that closes the parameters comes the result.
  have hresultRead {mid : List Char} (hmid : Spaced (.mark "as" :: result.pieces) mid rest)
      (hle : mid.length < text.length) :
      Reads f (.inType saved mid) (do
        expect Terminal.kindAs
        return .functionTest params (← sequenceTypeOf (itemTypeWithin (text.length + n)) .kindTest))
        (fun t => t = functionTest params result) (.inType saved rest) := by
    obtain ⟨last, hlast, hlt', has⟩ := (hmid.begun (by simp)).takes_mark hends .kindTest Terminal.kindAs
      rfl (by rfl)
    have hread := hresult f saved .kindTest .kindTest (text.length + n) last rest hwResult (by omega)
      (by omega) (by omega) (hlast.begun result.pieces_ne_nil) hrest
    refine reads_bind (reads_expect has) fun _ _ => ?_
    refine reads_bind (reads_forget hread) fun t ht => ?_
    rw [ht]
    exact reads_pure rfl
  apply reads_ifEat_declined hitem
  apply reads_ifEat_declined hany
  apply reads_ifEat htake
  apply reads_forget
  unfold Grammar.functionTest
  extract_lets answer
  rcases hargs with ⟨rfl, rfl⟩ | ⟨param, more, rfl, rfl⟩
  · obtain ⟨mid, hmid, hlt', hclose⟩ := (hinside.begun (by simp)).takes_mark hends .kindTest
      Terminal.kindClose rfl (by rfl)
    apply reads_ifEat hclose
    exact reads_forget (hresultRead hmid (by omega))
  · have hclose : Declines .kindTest inside Terminal.kindClose := by
      obtain ⟨piece, pieces, heq, hhead⟩ := param.head
      rw [heq] at hinside
      exact hhead.declines_close (hinside.begun (by simp)) hends
    obtain ⟨close, hclosing, hle, hread⟩ := reads_params saved (n := text.length + n) hparams hwParams
      (by omega) (by omega) (by omega) hinside hends
    obtain ⟨mid, hmid, hlt', hend⟩ := reads_closing f saved hclosing hends
    apply reads_ifEat_declined hclose
    refine reads_bind hread fun ts hts => ?_
    refine reads_bind hend fun _ _ => ?_
    rw [hts]
    exact hresultRead hmid (by omega)

/-- No item type is taken for the type of the empty sequence. -/
theorem declines_emptySequence {c : StaticContext} {t : ItemType} (hw : t.WellWritten c)
    (h : Begun t.pieces text rest) (hrest : Precludes t.goesOn rest) :
    Declines .kindTest text Terminal.emptySequence := by
  have hends := hrest.ends t.mem_goesOn
  have of_word {word : String} {args : List Piece} (h : Begun (marks [word, "("] ++ args) text rest)
      (hr : Scan.declinesAt .kindTest Terminal.emptySequence (Piece.views [] (marks [word, "("]))) :
      Declines .kindTest text Terminal.emptySequence :=
    h.declines (List.cons_ne_nil _ _) hends .kindTest _ hr
  cases hw with
  | item => exact of_word h (by rfl)
  | atomicOrUnion => exact declines_of_name h hrest _ (by simp [typeRules])
  | kindTest => exact declines_of_kind h hends _ (by simp [typeRules])
  | anyFunction => exact of_word h (by rfl)
  | @functionTest params result =>
    obtain ⟨args, hpieces, -⟩ := functionTest_pieces params result
    rw [hpieces] at h
    exact of_word h (by rfl)
  | parenthesized => exact Begun.declines_front h hends .kindTest _ (by rfl)

end ItemType

/-- A sequence type is read with its indicator, if its item type is read one level deeper. -/
theorem reads_sequenceTypeOf {f : Frame} {saved : List LexicalState} {state resume : LexicalState}
    {p : Parser ItemType} {t : ItemType} {times : Occurrence}
    (hw : (SequenceType.mk t times).WellWritten f.context)
    (hdepth : f.depth + (SequenceType.mk t times).levels ≤ f.maxDepth)
    (h : Begun (SequenceType.mk t times).pieces text rest) (hrest : Precludes typeGoesOn rest)
    (hp : ∀ mid, t.WellWritten f.context → f.depth + 1 + t.levels ≤ f.maxDepth →
      Begun t.pieces text mid → Precludes t.goesOn mid →
        Reads { f with depth := f.depth + 1 } (.inType saved text) p (fun t' => t' = t)
          (.inType saved mid)) :
    Reads f (.at text ⟨state, saved⟩) (sequenceTypeOf p resume) (fun t' => t' = .mk t times)
      (.at rest ⟨resume, saved⟩) := by
  have hends := hrest.ends List.mem_cons_self
  have hgoto : Reads f (.at text ⟨state, saved⟩) (goto .kindTest) (fun _ => True)
      (.inType saved text) := reads_goto .kindTest
  refine reads_bind hgoto fun _ _ => ?_
  cases hw with
  | empty =>
    have htext : Begun (marks ["empty-sequence", "(", ")"] ++ []) text rest := h
    obtain ⟨mid, hmid, -, htake⟩ := htext.takes hends .kindTest Terminal.emptySequence rfl (by rfl)
    cases hmid
    apply reads_ifEat htake
    exact reads_bind (reads_goto resume) fun _ _ => reads_forget (reads_pure rfl)
  | items hw hindicator =>
    have hlevels : (SequenceType.mk t times).levels = t.levels + 1 := by cases hw <;> rfl
    obtain ⟨mid, hitem, htimes⟩ := h.append t.pieces_ne_nil
    have hmid : Precludes t.goesOn mid := by
      rcases hindicator with hindicator | rfl
      · rw [ItemType.goesOn, if_pos hindicator]
        cases times with
        | exactlyOne =>
          cases htimes
          exact hrest.weaken (by simp [typeGoesOn])
        | zeroOrOne | zeroOrMore | oneOrMore => exact htimes.precludes hends (by rfl)
      · cases htimes
        exact hrest.weaken t.goesOn_subset
    have hnested : Reads f (.inType saved text) (nested p) (fun t' => t' = t) (.inType saved mid) :=
      reads_nested (by omega) (hp mid hw (by omega) hitem hmid)
    apply reads_ifEat_declined (ItemType.declines_emptySequence hw hitem hmid)
    refine reads_bind hnested fun t' ht' => ?_
    refine reads_bind (reads_goto .occurrence) fun _ _ => ?_
    refine reads_bind (reads_occurrence f saved times htimes hrest) fun o ho => ?_
    refine reads_bind (reads_goto resume) fun _ _ => ?_
    rw [ht', ho]
    exact reads_pure rfl

mutual

/-- Every item type is read as it is written. -/
theorem ItemType.readsIn (t : ItemType) : t.ReadsIn := by
  match t with
  | .emptySequence =>
    intro _ _ _ _ _ hw
    cases hw
  | .item => exact ItemType.readsIn_item
  | .anyFunction => exact ItemType.readsIn_anyFunction
  | .atomicOrUnion n => exact ItemType.readsIn_atomicOrUnion n
  | .kindTest test => exact ItemType.readsIn_kindTest test
  | .functionTest params result =>
    exact ItemType.readsIn_functionTest (fun p _ => SequenceType.readsIn p) (SequenceType.readsIn result)
  | .parenthesized inner => exact ItemType.readsIn_parenthesized (ItemType.readsIn inner)

/-- Every sequence type is read as it is written. -/
theorem SequenceType.readsIn (t : SequenceType) : t.ReadsIn := by
  match t with
  | .mk itemType times =>
    intro f saved state resume n text rest hw hdepth hsize hn h hrest
    refine reads_sequenceTypeOf hw hdepth h hrest fun mid hw' hdeeper hitem hmid => ?_
    exact ItemType.readsIn itemType { f with depth := f.depth + 1 } saved n text mid hw' hdeeper hsize hn
      hitem hmid

end

/-- The steps that the text allows are enough for every type in it. -/
theorem reads_itemType {f : Frame} {l l₁ : Place} {P : ItemType → Prop}
    (h : Reads f l (itemTypeWithin (f.size + 1)) P l₁) : Reads f l itemType P l₁ := by
  intro s hs
  have hsteps : s.steps = f.size + 1 := by
    rw [← hs.frame]
    rfl
  have hread := h s hs
  rw [← hsteps] at hread
  exact hread

/-- A sequence type is read in every lexical state, and the scanner goes on in the given one. -/
theorem reads_sequenceType {t : SequenceType} {f : Frame} {saved : List LexicalState}
    {state resume : LexicalState} (hw : t.WellWritten f.context)
    (hdepth : f.depth + t.levels ≤ f.maxDepth) (hsize : text.length ≤ f.size)
    (h : Begun t.pieces text rest) (hrest : Precludes typeGoesOn rest) :
    Reads f (.at text ⟨state, saved⟩) (sequenceType resume) (fun t' => t' = t)
      (.at rest ⟨resume, saved⟩) := by
  obtain ⟨itemType, times⟩ := t
  refine reads_sequenceTypeOf hw hdepth h hrest fun mid hw' hdeeper hitem hmid => ?_
  apply reads_itemType
  exact itemType.readsIn { f with depth := f.depth + 1 } saved (f.size + 1) text mid hw' hdeeper hsize
    (by omega) hitem hmid

end XQuerySyntax
