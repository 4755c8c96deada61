import XQuerySyntax.Proofs.Entry.Opening

/-! The rules of a prolog where none begins. In front of a text that does not begin like a prolog they are
declined, save one: the word that opens a declaration is matched in front of any name. Behind it no rule
of a declaration is matched. -/

namespace XQuerySyntax

namespace Scan

open XQuerySyntax.Parser (Declines)
open Grammar

/-- The pattern begins with the words, and no word goes on. -/
def beginsWith (items : List PatternItem) (words : List PatternItem) : Bool :=
  words.isPrefixOf items && !PatternItem.continuesWord (items.drop words.length)

theorem headRules_words : headRules.all fun (r, first, second) =>
    isPlainWord first && isPlainWord second &&
      beginsWith r.items (first.map .char ++ .gap :: second.map .char) := by
  rw [Rule.items_eq]
  rfl

theorem declaredRules_words : declaredRules.all fun (r, word) =>
    isPlainWord word && beginsWith r.items (word.map .char) := by
  rw [Rule.items_eq]
  rfl

theorem exists_of_beginsWith {items words : List PatternItem} (h : beginsWith items words) :
    ∃ more, items = words ++ more ∧ PatternItem.continuesWord more = false := by
  obtain ⟨hword, hmore⟩ := Bool.and_eq_true_iff.1 h
  obtain ⟨more, rfl⟩ := List.isPrefixOf_iff_prefix.1 hword
  rw [List.drop_left] at hmore
  exact ⟨more, rfl, by simpa using hmore⟩

variable {text tail : List Char}

/-- In front of a text that does not begin like a prolog the rules for its beginning are declined. -/
theorem headRules_declined (hno : ¬OpensProlog text) :
    ∀ r ∈ headRules.map Prod.fst, Declines .expression text r := by
  refine List.forall_mem_map.2 ?_
  rintro ⟨r, first, second⟩ ho m hm rfl
  have hwords := List.all_eq_true.1 headRules_words _ ho
  simp only [Bool.and_eq_true] at hwords
  obtain ⟨⟨hfirst, hsecond⟩, hitems⟩ := hwords
  obtain ⟨more, hitems, hmore⟩ := exists_of_beginsWith hitems
  have hmem : (first, second) ∈ openingWords := List.mem_append_left _ (List.mem_map_of_mem ho)
  rw [List.append_assoc, List.cons_append] at hitems
  rcases declined_or_opens_two hitems hfirst hsecond hmore (congrArg LexicalState.skipsBlanks hm)
    (congrArg LexicalState.skipsComments hm) with hdeclined | hopen | ⟨tail, hopens, hopen | ⟨tail', hapart, hnext⟩⟩
  · exact hdeclined
  · exact (hno (.unclosed hopen)).elim
  · exact (hno (.unclosedBehind hmem hopens hopen)).elim
  · exact (hno (.words hmem hopens hapart hnext)).elim

/-- Behind the word that opens a declaration, the rules of declarations are declined too. -/
theorem declaredRules_declined {place : List Char} (hno : ¬OpensProlog text)
    (hopens : Opens "declare".toList text tail) (hapart : startsTrivia true tail = true)
    (hplace : scanTrivia true tail = .found () place) : ∀ r ∈ declaredRules.map Prod.fst, Declines .declare place r := by
  refine List.forall_mem_map.2 ?_
  rintro ⟨r, second⟩ ho m hm rfl
  obtain ⟨hsecond, hitems⟩ := Bool.and_eq_true_iff.1 (List.all_eq_true.1 declaredRules_words _ ho)
  obtain ⟨more, hitems, hmore⟩ := exists_of_beginsWith hitems
  have hmem : ("declare".toList, second) ∈ openingWords :=
    List.mem_append_right _ (List.mem_map_of_mem (f := fun o => ("declare".toList, o.2)) ho)
  have hsettled := settled_of_scanTrivia hplace
  rcases declined_or_opens hitems hsecond hmore (congrArg LexicalState.skipsBlanks hm)
    (congrArg LexicalState.skipsComments hm) with hdeclined | hopen | ⟨tail', hnext, -⟩
  · exact hdeclined
  · rw [hopen.startsTrivia] at hsettled
    cases hsettled
  · obtain ⟨hscan, hends⟩ := hnext
    rw [scanTrivia_none hsettled] at hscan
    have hrest : m.cursor.rest = second ++ tail' := (Scanned.found.inj hscan).2
    rw [hrest] at hplace
    exact (hno (.words hmem hopens hapart ⟨hplace, hends⟩)).elim

theorem shows_of_scanName {text rest : List Char} {name : String} (h : scanName text = .found name rest) :
    Glimpse.Shows true [.name] text := by
  have hends := endsName_of_scanName h
  cases text with
  | nil => cases h
  | cons c cs =>
    rw [scanName] at h
    split at h <;> rename_i hc <;> cases h
    refine ⟨c :: cs.takeWhile isNameChar, cs.dropWhile isNameChar, ?_, ?_, hends, trivial⟩
    · rw [List.cons_append, List.takeWhile_append_dropWhile]
    · exact Bool.and_eq_true_iff.2 ⟨hc, List.all_eq_true.2 fun _ => List.mem_takeWhile_imp⟩

/-- A rule for the word that opens a declaration looks behind space at what must follow. -/
theorem eat_declare {r : Rule} (part : PatternItem) {m m₁ : Matcher}
    (hitems : r.items = "declare".toList.map .char ++ [PatternItem.gap, .anchor, part])
    (hstates : ∀ state, r.states.contains state = true → state.isMarkup = false)
    (h : eat r m = .ok true m₁) :
    ∃ tail space place m₂ m₃ token captures, Opens "declare".toList m.cursor.rest tail ∧ Trivia space ∧
      tail = space ++ place ∧ (PatternItem.startsWord [part] = true → space ≠ []) ∧
      m₂.cursor.rest = place ∧ items [part] true (some place) m₂ = .ok (some m₁.cursor.rest) m₃ ∧
      m₁ = Matcher.apply { m.moveTo m₁.cursor.rest with token, captures } r.next := by
  obtain ⟨m₂, m₃, front, hcomments, hfront, hrest, hmatch⟩ := eat_ok hstates h
  rw [hitems] at hmatch
  obtain ⟨tail, htail, hends, hmatch⟩ := items_word_ok (by decide) (by decide) rfl hmatch
  obtain ⟨space, place, hspace, htail', hmatch, hne⟩ := items_gap_ok (m := m₂.moveTo tail) hcomments hmatch
  -- The match comes back to the anchor, which stands behind the space.
  obtain ⟨_, _, ⟨⟩, hmatch⟩ := of_bind_ok hmatch
  have hopens : Opens "declare".toList m.cursor.rest tail := by
    rw [hrest, htail]
    exact ⟨scanTrivia_append hfront rfl, hends⟩
  obtain ⟨m', he, -, hp⟩ | ⟨m', he, -⟩ | ⟨d, m', he, -⟩ := eat_cases r m <;> rw [he] at h <;> cases h
  have hsettles := pattern_settles r.items m
  rw [hp] at hsettles
  obtain ⟨rest, token, captures, rfl⟩ := hsettles
  exact ⟨tail, space, place, _, m₃, token, captures, hopens, hspace, htail', hne, rfl, hmatch, rfl⟩

/-- The word that opens a declaration is matched up to a name that stands apart from it. -/
theorem eat_declareWord {m m₁ : Matcher} (h : eat Terminal.declareWord m = .ok true m₁) :
    ∃ tail place token captures, Opens "declare".toList m.cursor.rest tail ∧ startsTrivia true tail = true ∧
      scanTrivia true tail = .found () place ∧ Glimpse.Shows true [.name] place ∧
      m₁ = ({ m.moveTo place with token, captures }).goto .declare := by
  have hstates : ∀ state, Terminal.declareWord.states.contains state = true → state.isMarkup = false := by
    intro state
    cases state <;> decide
  obtain ⟨tail, space, place, m₂, m₃, token, captures, hopens, hspace, rfl, hne, hrest, hmatch, hm₁⟩ :=
    eat_declare (.capture .name) (by rfl) hstates h
  obtain ⟨matched, m₄, hname, hmatch⟩ := of_bind_ok hmatch
  cases matched with
  | false => cases hmatch
  | true =>
    rw [if_pos rfl] at hmatch
    have hplace : m₁.cursor.rest = place := items_nil_ok hmatch
    obtain ⟨found, m₅, hlexeme, hkeep⟩ := of_bind_ok hname
    have hshows : Glimpse.Shows true [.name] place := by
      unfold lexeme at hlexeme
      split at hlexeme <;> rename_i hscan <;> cases hlexeme
      · exact shows_of_scanName (hrest ▸ hscan)
      · cases hkeep
    rw [hplace] at hm₁
    exact ⟨_, place, token, captures, hopens, hspace.startsTrivia (hne rfl) place,
      scanTrivia_append hspace (hshows.settled rfl), hshows, hm₁⟩

/-- The word that opens a declaration is matched in front of an annotation only if one is there. -/
theorem opensProlog_of_declareAnnotated {m m₁ : Matcher} (h : eat Terminal.declareAnnotated m = .ok true m₁) :
    OpensProlog m.cursor.rest := by
  have hstates : ∀ state, Terminal.declareAnnotated.states.contains state = true → state.isMarkup = false := by
    intro state
    cases state <;> decide
  obtain ⟨tail, space, place, m₂, m₃, -, -, hopens, hspace, rfl, -, hrest, hmatch, -⟩ :=
    eat_declare .percent (by rfl) hstates h
  obtain ⟨matched, m₄, hchar, hmatch⟩ := of_bind_ok hmatch
  cases matched with
  | false => cases hmatch
  | true =>
    obtain ⟨rest, hplace, -⟩ := char_ok hchar
    rw [hrest] at hplace
    rw [hplace] at hopens
    exact .annotated hopens (scanTrivia_append hspace rfl)

/-- In front of a text that does not begin like a prolog no open comment is met behind the word that opens
a declaration. -/
theorem declare_settles {r : Rule} {part : PatternItem} {m : Matcher} (hm : m.state = .expression)
    (hno : ¬OpensProlog m.cursor.rest)
    (hitems : r.items = "declare".toList.map .char ++ [PatternItem.gap, .anchor, part])
    (hpart : ∀ anchor m d m', items [part] true anchor m ≠ .error d m') :
    Declined r m ∨ ∃ m₁, eat r m = .ok true m₁ := by
  rcases declined_or_opens hitems (by decide) rfl (congrArg LexicalState.skipsBlanks hm)
    (congrArg LexicalState.skipsComments hm) with hdeclined | hopen | ⟨tail, hopens, hanswer⟩
  · exact .inl hdeclined
  · exact (hno (.unclosed hopen)).elim
  cases he : eat r m with
  | ok matched m₁ =>
    cases matched with
    | true => exact .inr ⟨m₁, rfl⟩
    | false => exact .inl (declined_of_answer (by rw [he]; rfl))
  | error d m₁ =>
    have hadmits : m.admits r := by
      by_contra hno
      rw [Scan.eat, if_neg hno] at he
      cases he
    have herror := hanswer hadmits
    rw [he] at herror
    cases hscan : scanTrivia true tail with
    | absent => exact (scanTrivia_ne_absent _ _ hscan).elim
    | faulty fault place =>
      have hmem : ("declare".toList, "variable".toList) ∈ openingWords := by decide
      exact (hno (.unclosedBehind hmem hopens ⟨fault, place, hscan⟩)).elim
    | found _ place =>
      have hskip : skipTrivia { m.moveTo tail with captures := [] } =
          .ok () (Matcher.moveTo { m.moveTo tail with captures := [] } place) := by
        refine skipTrivia_found (m := { m.moveTo tail with captures := [] }) ?_
        change scanTrivia m.state.skipsComments tail = _
        rw [hm]
        exact hscan
      rw [items, bind_ok (separated_eq _), bind_ok hskip] at herror
      split at herror
      · cases herror
      · cases hmatch : items [part] true (some place) (Matcher.moveTo { m.moveTo tail with captures := [] } place)
          with
        | error d m₂ => exact (hpart _ _ _ _ hmatch).elim
        | ok found m₂ =>
          have hanchor : items (.anchor :: [part]) true none
              (Matcher.moveTo { m.moveTo tail with captures := [] } place) = .ok found m₂ := hmatch
          rw [hanchor] at herror
          cases herror

/-- A name or a percent sign is there or not; neither can be malformed. -/
theorem items_single {step : Scan Bool} {part : PatternItem} {afterWord : Bool} (hstep : ∀ m, ∃ b m', step m = .ok b m')
    (hitems : ∀ anchor, items [part] true anchor =
      step >>= fun b => if b then items [] afterWord anchor else pure none)
    (anchor : Option (List Char)) (m : Matcher) (d : Diagnostic) (m' : Matcher) :
    items [part] true anchor m ≠ .error d m' := by
  intro h
  obtain ⟨b, m₁, hb⟩ := hstep m
  rw [hitems, bind_ok hb] at h
  cases b <;> cases h

theorem declareAnnotated_declined (hno : ¬OpensProlog text) :
    Declines .expression text Terminal.declareAnnotated := by
  rintro m hm rfl
  have hchar (m : Matcher) : ∃ b m', char '%' m = .ok b m' := by
    unfold char
    split <;> exact ⟨_, _, rfl⟩
  have hitems : Terminal.declareAnnotated.items =
      "declare".toList.map .char ++ [PatternItem.gap, .anchor, .percent] := by
    rfl
  rcases declare_settles hm hno hitems (items_single hchar fun _ => rfl) with hdeclined | ⟨m₁, h⟩
  · exact hdeclined
  · exact (hno (opensProlog_of_declareAnnotated h)).elim

theorem declareWord_settles {m : Matcher} (hm : m.state = .expression) (hno : ¬OpensProlog m.cursor.rest) :
    Declined Terminal.declareWord m ∨ ∃ m₁, eat Terminal.declareWord m = .ok true m₁ := by
  have hname (m : Matcher) : ∃ b m', placeholder .name m = .ok b m' := by
    change ∃ b m', (lexeme scanName >>= fun found => keep (found.map .name)) m = .ok b m'
    cases hscan : scanName m.cursor.rest with
    | found name rest => exact ⟨true, _, bind_ok (lexeme_found hscan)⟩
    | absent => exact ⟨false, _, bind_ok (lexeme_absent hscan)⟩
    | faulty fault place =>
      cases hrest : m.cursor.rest with
      | nil =>
        rw [hrest] at hscan
        cases hscan
      | cons c cs =>
        rw [hrest, scanName] at hscan
        split at hscan <;> cases hscan
  have hitems : Terminal.declareWord.items =
      "declare".toList.map .char ++ [PatternItem.gap, .anchor, .capture .name] := by
    rfl
  exact declare_settles hm hno hitems (items_single hname fun _ => rfl)

end Scan

end XQuerySyntax
