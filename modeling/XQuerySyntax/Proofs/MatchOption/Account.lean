import Mathlib
import XQuerySyntax.Proofs.LexicalState.Discipline
import XQuerySyntax.Proofs.MatchOption.Gives
import XQuerySyntax.Proofs.MatchOption.Written

/-! Match options are accounted for. The options that a full-text search ends up with are those of its text:
the last of each group and all extensions, with an error for every further option of a group. -/

namespace XQuerySyntax

open XQuerySyntax.Parser XQuerySyntax.Grammar

variable {α : Type} {s s' : ParserState} {r : Rule} {text token rest : List Char} {found : Captures}

/-! ### What tokens capture -/

namespace HasToken

theorem found_eq_nil (h : HasToken r text token found rest) (hr : capturedKinds r.items = []) : found = [] :=
  List.map_eq_nil_iff.1 (h.matched.kinds_eq.trans hr)

theorem exists_string (h : HasToken r text token found rest) (hr : capturedKinds r.items = [.string]) :
    ∃ value, found = [.string value] := by
  obtain ⟨capture, rfl, hkind⟩ := List.map_eq_singleton_iff.1 (h.matched.kinds_eq.trans hr)
  cases capture <;> cases hkind
  exact ⟨_, rfl⟩

theorem exists_number (h : HasToken r text token found rest) (hr : capturedKinds r.items = [.number]) :
    ∃ n, found = [.number n] := by
  obtain ⟨capture, rfl, hkind⟩ := List.map_eq_singleton_iff.1 (h.matched.kinds_eq.trans hr)
  cases capture <;> cases hkind
  exact ⟨_, rfl⟩

theorem exists_pair (first second : Placeholder) (h : HasToken r text token found rest)
    (hr : capturedKinds r.items = [first, second]) :
    ∃ c d, found = [c, d] ∧ c.kind = first ∧ d.kind = second := by
  obtain ⟨c, found, rfl, hc, hfound⟩ := List.map_eq_cons_iff.1 (h.matched.kinds_eq.trans hr)
  obtain ⟨d, rfl, hd⟩ := List.map_eq_singleton_iff.1 hfound
  exact ⟨c, d, rfl, hc, hd⟩

end HasToken

/-! ### Lists -/

/-- A rule that stands outside markup, stays in its lexical state and captures nothing. -/
structure Rule.Punctuates (r : Rule) : Prop where
  outside : r.keepsOutOfMarkup
  stays : r.next = .stay
  silent : capturedKinds r.items = []

theorem gives_separatedBy {p : Parser α} (Item : List Char → α → List Char → Prop) (hr : r.Punctuates)
    (hadmits : s.scan.admits r)
    (hp : ∀ s₁, s.Moves s₁ → Gives s₁ p fun a s₂ => s₁.Moves s₂ ∧ Item s₁.rest a s₂.rest) :
    Gives s (separatedBy r p) fun as s' => s.Moves s' ∧ Listed r Item s.rest as s'.rest := by
  let P (s₁ : ParserState) (as : List α) (s₂ : ParserState) : Prop :=
    s₁.Moves s₂ ∧ ∀ a text, Item text a s₁.rest → Listed r Item text (a :: as) s₂.rest
  have hrounds (s₁ : ParserState) (hs₁ : s.Moves s₁) : Gives s₁ (many (whenEats r p)) (P s₁) := by
    refine gives_many (I := s.Moves) (fun s₁ hs₁ => ?_) hs₁
    refine gives_ifEat hr.outside (fun token found rest _ htoken => ?_) fun captures hlacks => gives_pure ?_
    · obtain rfl := htoken.found_eq_nil hr.silent
      have hmoves : s₁.Moves (s₁.movedTo rest token []) := ⟨_, _, _, rfl⟩
      rw [ParserState.behind_eq hr.stays]
      refine (hp _ (hs₁.trans hmoves)).bind ?_
      intro a s₂ ha
      obtain ⟨hs₂, hitem⟩ := ha
      refine gives_pure ⟨(hs₁.trans hmoves).trans hs₂, ?_⟩
      exact fun as s₃ h => ⟨(hmoves.trans hs₂).trans h.1, fun b text hb => .cons hb htoken (h.2 a rest hitem)⟩
    · exact ⟨⟨_, _, _, rfl⟩, fun a text ha => .last ha (hlacks (by rw [hs₁.admits]; exact hadmits))⟩
  refine (hp s (.refl s)).bind ?_
  intro a s₁ ha
  obtain ⟨hs₁, hitem⟩ := ha
  exact (hrounds s₁ hs₁).bind fun as s₂ h => gives_pure ⟨hs₁.trans h.1, h.2 a s.rest hitem⟩

/-! ### Thesauri -/

theorem gives_capturedConstant {Q : LiteralNode → ParserState → Prop} {i : Nat} {n : Literal}
    (hn : Captures.number? s.scan.captures i = some n) (h : Q (s.frame.constant n s.scan.token) s) :
    Gives s (capturedConstant i) Q := by
  have hthere : s.scan.captures.has .number i = true := by
    rw [Captures.has_number, hn]
    rfl
  refine gives_bind (gives_observe hthere ?_)
  rw [hn]
  rintro _ _ ⟨⟩
  exact h

/-- Levels are read up to the word behind them. -/
theorem gives_thesaurusLevels (hs : s.scan.admits Terminal.thesaurusAt) :
    Gives s thesaurusLevels fun levels s₁ => s.Moves s₁ ∧
      match levels with
      | none => SaysLevels s.frame s.rest none s₁.rest
      | some _ => ∀ word rest, HasToken Terminal.levelsWord s₁.rest word [] rest →
        SaysLevels s.frame s.rest levels rest := by
  refine gives_ifEat (by decide) (fun token found rest _ htoken => ?_) fun _ hexactly => ?_
  · obtain ⟨n, rfl⟩ := htoken.exists_number (by decide)
    refine gives_bind (gives_capturedConstant rfl (gives_pure ⟨⟨_, _, _, rfl⟩, fun word rest hword => ?_⟩))
    exact .exactly htoken hword
  refine gives_ifEat_behind (by decide) (fun token found rest _ htoken => ?_) fun _ hatLeast => ?_
  · obtain ⟨n, rfl⟩ := htoken.exists_number (by decide)
    refine gives_bind (gives_capturedConstant rfl (gives_pure ⟨⟨_, _, _, rfl⟩, fun word rest hword => ?_⟩))
    exact .atLeast htoken hword
  refine gives_ifEat_behind (by decide) (fun token found rest _ htoken => ?_) fun _ hatMost => ?_
  · obtain ⟨n, rfl⟩ := htoken.exists_number (by decide)
    refine gives_bind (gives_capturedConstant rfl (gives_pure ⟨⟨_, _, _, rfl⟩, fun word rest hword => ?_⟩))
    exact .atMost htoken hword
  refine gives_ifEat_behind (by decide) (fun token found rest _ htoken => ?_) fun _ hfromTo => gives_pure ?_
  · obtain ⟨c, d, rfl, hc, hd⟩ := htoken.exists_pair .number .number (by decide)
    cases c <;> cases hc
    cases d <;> cases hd
    refine gives_bind (gives_capturedConstant rfl (gives_bind (gives_capturedConstant rfl (gives_pure ?_))))
    exact ⟨⟨_, _, _, rfl⟩, fun word rest hword => .fromTo htoken hword⟩
  · refine ⟨⟨_, _, _, rfl⟩, .none ?_⟩
    simp only [List.forall_mem_cons]
    exact ⟨hexactly hs, hatLeast hs, hatMost hs, hfromTo hs, fun _ h => nomatch h⟩

theorem gives_relationship (hs : s.scan.admits Terminal.thesaurusAt) :
    Gives s (whenEats Terminal.relationship (capturedString 0)) fun relationship s₁ =>
      s.Moves s₁ ∧ SaysRelationship s.rest relationship s₁.rest := by
  refine gives_ifEat (by decide) (fun token found rest _ htoken => ?_) fun _ hlacks => ?_
  · obtain ⟨name, rfl⟩ := htoken.exists_string (by decide)
    exact gives_bind (gives_observe rfl (gives_pure ⟨⟨_, _, _, rfl⟩, .some htoken⟩))
  · exact gives_pure ⟨⟨_, _, _, rfl⟩, .none (hlacks hs)⟩

theorem gives_thesaurusId (hs : s.scan.admits Terminal.thesaurusAt) :
    Gives s thesaurusId fun t s₁ => s.Moves s₁ ∧ SaysThesaurus s.frame s.rest (some t) s₁.rest := by
  refine gives_bind (gives_expect (by decide) fun token found behind _ hat => ?_)
  obtain ⟨location, rfl⟩ := hat.exists_string (by decide)
  let s₀ := s.behind Terminal.thesaurusAt behind token [.string location]
  refine gives_bind (gives_observe rfl ((gives_relationship (s := s₀) hs).bind ?_))
  rintro relationship s₁ ⟨hs₁, hrelationship⟩
  have hs₁ : s.Moves s₁ := ParserState.Moves.trans ⟨_, _, _, rfl⟩ hs₁
  refine (gives_thesaurusLevels (by rw [hs₁.admits]; exact hs)).bind ?_
  rintro (_ | levels) s₂ ⟨hs₂, hlevels⟩ <;> rw [hs₁.frame] at hlevels
  · exact gives_pure ⟨hs₁.trans hs₂, .stored hat hrelationship hlevels⟩
  · refine gives_bind (gives_expect (by decide) fun word found rest _ hword => gives_pure ?_)
    obtain rfl := hword.found_eq_nil (by decide)
    exact ⟨(hs₁.trans hs₂).trans ⟨_, _, _, rfl⟩, .stored hat hrelationship (hlevels word rest hword)⟩

theorem gives_thesaurus (hs : s.scan.admits Terminal.thesaurusAt) :
    Gives s thesaurus fun t s₁ => s.Moves s₁ ∧ SaysThesaurus s.frame s.rest t s₁.rest := by
  refine gives_ifEat (by decide) (fun token found rest _ htoken => ?_) fun captures _ => ?_
  · obtain rfl := htoken.found_eq_nil (by decide)
    exact gives_pure ⟨⟨_, _, _, rfl⟩, .default htoken⟩
  · refine (gives_thesaurusId (s := s.movedTo s.rest s.scan.token captures) hs).bind fun t s₁ h => gives_pure ?_
    exact ⟨ParserState.Moves.trans ⟨_, _, _, rfl⟩ h.1, h.2⟩

/-- The thesauri are read in a state of their own, and what follows them in operator position. -/
theorem gives_thesaurusOption (hs : s.scan.admits Terminal.thesaurusAt) :
    Gives s thesaurusOption fun value s' => SaysThesauri s.frame s.rest value s'.rest ∧
      ∃ s₁, s.Moves s₁ ∧ s' = { s₁ with scan := s₁.scan.goto .operator } := by
  have hcomma : Terminal.thesaurusComma.Punctuates := ⟨by decide, rfl, by decide⟩
  refine gives_ifEat (by decide) (fun token found inner _ hopen => ?_) fun captures _ => ?_
  · obtain rfl := hopen.found_eq_nil (by decide)
    let s₀ := s.behind Terminal.thesaurusOpen inner token []
    refine (gives_separatedBy (s := s₀) (SaysThesaurus s.frame) hcomma hs fun s₁ hs₁ => ?_).bind ?_
    · have hitem := gives_thesaurus (s := s₁) (by rw [hs₁.admits]; exact hs)
      rwa [hs₁.frame] at hitem
    rintro thesauri s₁ ⟨hs₁, hlist⟩
    refine gives_bind (gives_expect (by decide) fun token' found rest _ hclose => ?_)
    obtain rfl := hclose.found_eq_nil (by decide)
    have hmoves : s.Moves (s₁.behind Terminal.thesaurusClose rest token' []) :=
      (ParserState.Moves.trans ⟨_, _, _, rfl⟩ hs₁).trans ⟨_, _, _, rfl⟩
    rintro _ _ ⟨⟩
    exact ⟨.list hopen hlist hclose, _, hmoves, rfl⟩
  · let s₀ := s.movedTo s.rest s.scan.token captures
    have hone : Gives s₀ ((fun t => [t]) <$> thesaurus) fun thesauri s₁ => s.Moves s₁ ∧
        ∃ t, thesauri = [t] ∧ SaysThesaurus s.frame s.rest t s₁.rest :=
      gives_map ((gives_thesaurus (s := s₀) hs).weaken fun t s₁ h =>
        ⟨ParserState.Moves.trans ⟨_, _, _, rfl⟩ h.1, t, rfl, h.2⟩)
    refine hone.bind ?_
    rintro _ s₁ ⟨hmoves, t, rfl, ht⟩ _ _ ⟨⟩
    exact ⟨.one ht, _, hmoves, rfl⟩

/-! ### Stop words -/

theorem gives_stopWordList (hs : s.scan.admits Terminal.usingOption) :
    Gives s stopWordList fun words s₁ => s.Moves s₁ ∧ SaysWords s.rest words s₁.rest := by
  have hcomma : Terminal.ftListComma.Punctuates := ⟨by decide, rfl, by decide⟩
  refine (gives_separatedBy SaysWord hcomma hs fun s₁ hs₁ => ?_).bind ?_
  · refine gives_bind (gives_eat (by decide) (fun token found rest _ htoken => ?_) fun _ _ => ?_)
    · obtain ⟨word, rfl⟩ := htoken.exists_string (by decide)
      exact gives_ite (fun h => nomatch h) fun _ => gives_observe rfl ⟨⟨_, _, _, rfl⟩, token, htoken⟩
    · exact gives_ite (fun _ => gives_bind gives_unexpected) fun h => (h rfl).elim
  · rintro words s₁ ⟨hs₁, hlist⟩
    refine gives_bind (gives_expect (by decide) fun token found rest _ hclose => gives_pure ?_)
    obtain rfl := hclose.found_eq_nil (by decide)
    exact ⟨hs₁.trans ⟨_, _, _, rfl⟩, .list hlist hclose⟩

theorem gives_firstStopWords (hs : s.scan.admits Terminal.usingOption) :
    Gives s firstStopWords fun words s₁ => s.Moves s₁ ∧ ∀ source ∈ words, SaysSource s.rest source s₁.rest := by
  refine gives_ifEat (by decide) (fun token found rest _ htoken => ?_) fun _ _ => ?_
  · obtain rfl := htoken.found_eq_nil (by decide)
    exact gives_pure ⟨⟨_, _, _, rfl⟩, fun _ h => Option.some.inj h ▸ .default htoken⟩
  refine gives_ifEat_behind (by decide) (fun token found rest _ htoken => ?_) fun _ _ => ?_
  · obtain ⟨location, rfl⟩ := htoken.exists_string (by decide)
    exact gives_bind (gives_observe rfl (gives_pure
      ⟨⟨_, _, _, rfl⟩, fun _ h => Option.some.inj h ▸ .stored htoken⟩))
  refine gives_ifEat_behind (by decide) (fun token found inner _ hopen => ?_) fun _ _ => ?_
  · obtain rfl := hopen.found_eq_nil (by decide)
    refine (gives_stopWordList (s := s.behind Terminal.stopWordsList inner token []) hs).bind ?_
    rintro words s₁ ⟨hs₁, hwords⟩
    exact gives_pure ⟨ParserState.Moves.trans ⟨_, _, _, rfl⟩ hs₁, fun _ h => Option.some.inj h ▸ .list hopen hwords⟩
  · exact gives_pure ⟨⟨_, _, _, rfl⟩, fun _ h => nomatch h⟩

/-- Space aside, the text begins with the first character of a pattern. -/
theorem HasToken.scanTrivia_eq {c : Char} {parts : List PatternItem} (h : HasToken r text token found rest)
    (hr : r.items = .char c :: parts) : ∃ behind, scanTrivia true text = .found () (c :: behind) := by
  obtain ⟨space, hspace, rfl⟩ := h.space
  have hmatched := h.matched
  rw [hr] at hmatched
  cases hmatched
  exact ⟨_, scanTrivia_append hspace h.settled⟩

namespace FtStopWordCombine

theorem punctuates_of_mem_rules {c : FtStopWordCombine} (h : (r, c) ∈ rules) : r.Punctuates := by
  have hall : ∀ entry ∈ rules, entry.1.Punctuates := by
    simp only [rules, List.forall_mem_cons]
    exact ⟨⟨by decide, rfl, by decide⟩, ⟨by decide, rfl, by decide⟩, fun _ h => nomatch h⟩
  exact hall _ h

theorem admits_of_mem_rules {c : FtStopWordCombine} (h : (r, c) ∈ rules) {m : Matcher}
    (hm : m.admits Terminal.usingOption) : m.admits r := by
  have hall : ∀ entry ∈ rules, m.admits entry.1 = true := by
    simp only [rules, List.forall_mem_cons]
    exact ⟨hm, hm, fun _ h => nomatch h⟩
  exact hall _ h

/-- The words that join sources begin with different letters, so the text goes on with one of them at most. -/
theorem rule_unique {r' : Rule} {c c' : FtStopWordCombine} {token' rest' : List Char} {found' : Captures}
    (hr : (r, c) ∈ rules) (hr' : (r', c') ∈ rules) (h : HasToken r text token found rest)
    (h' : HasToken r' text token' found' rest') : r' = r := by
  have hletters : ∀ entry ∈ rules, ∃ letter parts, entry.1.items = .char letter :: parts ∧
      (letter = 'u' ∧ entry.1 = Terminal.stopWordsUnion ∨ letter = 'e' ∧ entry.1 = Terminal.stopWordsExcept) := by
    refine List.forall_mem_cons.2 ⟨⟨'u', _, rfl, .inl ⟨rfl, rfl⟩⟩, List.forall_mem_cons.2 ⟨?_, fun _ h => nomatch h⟩⟩
    exact ⟨'e', _, rfl, .inr ⟨rfl, rfl⟩⟩
  obtain ⟨letter, parts, hitems, hcase⟩ := hletters _ hr
  obtain ⟨letter', parts', hitems', hcase'⟩ := hletters _ hr'
  obtain ⟨behind, hscan⟩ := h.scanTrivia_eq hitems
  obtain ⟨behind', hscan'⟩ := h'.scanTrivia_eq hitems'
  rw [hscan] at hscan'
  injection hscan' with _ hletter
  obtain rfl := (List.cons.inj hletter).1
  rcases hcase with ⟨rfl, hr⟩ | ⟨rfl, hr⟩ <;> rcases hcase' with ⟨h₁, hr'⟩ | ⟨h₁, hr'⟩
  · exact hr'.trans hr.symm
  · exact absurd h₁ (by decide)
  · exact absurd h₁ (by decide)
  · exact hr'.trans hr.symm

end FtStopWordCombine

/-- The words that join sources are left where they are if no source follows. -/
theorem gives_furtherStopWords (hs : s.scan.admits Terminal.usingOption) :
    Gives s furtherStopWords fun answer s₁ => s.Moves s₁ ∧
      match answer with
      | none => SaysSources s.rest [] s₁.rest
      | some source => SaysFurther s.rest source s₁.rest := by
  refine gives_bind (gives_observe rfl (gives_bind (gives_eatFirst FtStopWordCombine.rules ?_ ?_ ?_)))
  · exact fun entry hentry => (FtStopWordCombine.punctuates_of_mem_rules hentry).outside
  · intro r combine token found behind hr _ hjoin
    have hpunctuates := FtStopWordCombine.punctuates_of_mem_rules hr
    obtain rfl := hjoin.found_eq_nil hpunctuates.silent
    rw [ParserState.behind_eq hpunctuates.stays]
    refine gives_ite (fun h => nomatch h) fun _ => ?_
    refine gives_ifEat (by decide) (fun token' found rest _ hat => ?_) fun _ hnoAt => ?_
    · obtain ⟨location, rfl⟩ := hat.exists_string (by decide)
      refine gives_bind (gives_observe rfl (gives_pure ?_))
      exact ⟨⟨_, _, _, rfl⟩, .stored hr hjoin hat⟩
    refine gives_ifEat_behind (by decide) (fun token' found inner _ hopen => ?_) fun _ hnoOpen => ?_
    · obtain rfl := hopen.found_eq_nil (by decide)
      refine (gives_stopWordList (s := s.movedTo inner token' []) hs).bind ?_
      rintro words s₁ ⟨hs₁, hwords⟩
      exact gives_pure ⟨ParserState.Moves.trans ⟨_, _, _, rfl⟩ hs₁, .list hr hjoin hopen hwords⟩
    · rintro _ _ ⟨⟩
      refine ⟨⟨_, _, _, rfl⟩, .nil fun source rest hfurther => ?_⟩
      cases hfurther with
      | stored hr' hjoin' hat =>
        obtain rfl := FtStopWordCombine.rule_unique hr hr' hjoin hjoin'
        obtain ⟨-, -, rfl⟩ := hjoin.unique hjoin'
        exact hnoAt hs _ _ _ hat
      | list hr' hjoin' hopen =>
        obtain rfl := FtStopWordCombine.rule_unique hr hr' hjoin hjoin'
        obtain ⟨-, -, rfl⟩ := hjoin.unique hjoin'
        exact hnoOpen hs _ _ _ hopen
  · intro captures hlacks
    refine gives_pure ⟨⟨_, _, _, rfl⟩, .nil fun source rest hfurther => ?_⟩
    cases hfurther with
    | stored hr hjoin => exact hlacks _ hr (FtStopWordCombine.admits_of_mem_rules hr hs) _ _ _ hjoin
    | list hr hjoin => exact hlacks _ hr (FtStopWordCombine.admits_of_mem_rules hr hs) _ _ _ hjoin

theorem gives_stopWordOption (hs : s.scan.admits Terminal.usingOption) :
    Gives s stopWordOption fun answer s₁ => s.Moves s₁ ∧
      ∀ words ∈ answer, SaysOption s.frame s.rest (.stopWords words) s₁.rest := by
  refine gives_ifEat (by decide) (fun token found rest _ htoken => ?_) fun captures _ => ?_
  · obtain rfl := htoken.found_eq_nil (by decide)
    exact gives_pure ⟨⟨_, _, _, rfl⟩, fun _ h => Option.some.inj h ▸ .noStopWords htoken⟩
  refine (gives_firstStopWords (s := s.movedTo s.rest s.scan.token captures) hs).bind ?_
  rintro (_ | words) s₁ ⟨hs₁, hsource⟩
  · exact gives_pure ⟨ParserState.Moves.trans ⟨_, _, _, rfl⟩ hs₁, fun _ h => nomatch h⟩
  have hs₁ : s.Moves s₁ := ParserState.Moves.trans ⟨_, _, _, rfl⟩ hs₁
  let P (s₂ : ParserState) (sources : List FtStopWordSource) (s₃ : ParserState) : Prop :=
    s₂.Moves s₃ ∧ SaysSources s₂.rest sources s₃.rest
  refine (gives_many (P := P) (I := s.Moves) (fun s₂ hs₂ => ?_) hs₁).bind ?_
  · refine (gives_furtherStopWords (by rw [hs₂.admits]; exact hs)).weaken ?_
    rintro (_ | source) s₃ ⟨hs₃, hfurther⟩
    · exact ⟨hs₃, hfurther⟩
    · exact ⟨hs₂.trans hs₃, fun sources s₄ h => ⟨hs₃.trans h.1, .cons hfurther h.2⟩⟩
  rintro sources s₂ ⟨hs₂, hsources⟩
  exact gives_pure ⟨hs₁.trans hs₂, fun _ h => Option.some.inj h ▸ .stopWords (hsource words rfl) hsources⟩

/-! ### One option -/

theorem punctuates_of_mem_plain {option : FtMatchOption} (h : (r, option) ∈ FtMatchOption.plain) :
    r.Punctuates ∧ option.extension? = none := by
  have hall : ∀ entry ∈ FtMatchOption.plain, entry.1.Punctuates ∧ entry.2.extension? = none := by
    simp only [FtMatchOption.plain, List.forall_mem_cons]
    iterate 10 refine ⟨⟨⟨by decide, rfl, by decide⟩, rfl⟩, ?_⟩
    exact fun _ h => nomatch h
  exact hall _ h

/-- A name is resolved where it stands; a qualifier that is not bound is reported. -/
theorem gives_plainName (name : LexicalName) {offset : Nat} (value : String) :
    Gives s (plainName name offset) fun n s' => n = s.frame.plainName name ∧
      s' = { s with recorded := s.recorded ++ WrittenOption.unknownPrefix ⟨offset, .extension n value⟩ } := by
  have hnone (n : QName) (h : n.qualifier = none ∨ n.namespaceUri.isSome) :
      WrittenOption.unknownPrefix ⟨offset, .extension n value⟩ = [] := by
    obtain ⟨_ | q, l, _ | u⟩ := n <;> first | rfl | simp at h
  obtain ⟨_ | q, l⟩ := name
  · refine gives_pure ⟨rfl, ?_⟩
    rw [hnone _ (.inl rfl), List.append_nil]
  · have hresolve : resolveQualifier q offset s = .ok (s.context.resolve? q)
        { s with recorded := s.recorded ++
            WrittenOption.unknownPrefix ⟨offset, .extension ⟨some q, l, s.context.resolve? q⟩ value⟩ } := by
      have hconsult : consult (·.resolve? q) s = .ok (s.context.resolve? q) s := rfl
      rw [resolveQualifier, bind_of_ok hconsult]
      cases s.context.resolve? q with
      | none => rfl
      | some u =>
        rw [hnone _ (.inr rfl), List.append_nil]
        rfl
    intro n s' hn
    obtain ⟨uri, s₁, huri, ⟨⟩⟩ := of_bind_ok hn
    rw [hresolve] at huri
    cases huri
    exact ⟨rfl, rfl⟩

/-- Match options stand in operator position. -/
theorem stack_of_admits (hs : s.scan.admits Terminal.usingOption) :
    s.scan.stack = s.scan.stack.goto .operator := by
  have hstate : [LexicalState.operator].contains s.scan.state = true := (Bool.and_eq_true_iff.1 hs).1
  have hactive : s.scan.state = .operator := by simpa using hstate
  exact congrArg (StateStack.mk · s.scan.stack.saved) hactive

/-- Behind an option the parser is where the option ends, with an error recorded if it has a qualifier that
is not bound. -/
theorem gives_matchOption (hs : s.scan.admits Terminal.usingOption) (offset : Nat) :
    Gives s (matchOption offset) fun option s' => SaysOption s.frame s.rest option s'.rest ∧
      ∃ s₁, s.Moves s₁ ∧
        s' = { s₁ with recorded := s.recorded ++ WrittenOption.unknownPrefix ⟨offset, option⟩ } := by
  have hplain {option : FtMatchOption} {s₁ : ParserState} (hmoves : s.Moves s₁) (hoption : option.extension? = none) :
      ∃ s₂, s.Moves s₂ ∧
        s₁ = { s₂ with recorded := s.recorded ++ WrittenOption.unknownPrefix ⟨offset, option⟩ } := by
    have hsilent : WrittenOption.unknownPrefix ⟨offset, option⟩ = [] := by
      cases option <;> first | rfl | cases hoption
    refine ⟨s₁, hmoves, ?_⟩
    obtain ⟨_, _, _, rfl⟩ := hmoves
    rw [hsilent, List.append_nil]
    rfl
  refine gives_bind (gives_eatFirst FtMatchOption.plain ?_ ?_ fun captures _ => ?_)
  · exact fun entry hentry => (punctuates_of_mem_plain hentry).1.outside
  · intro r option token found rest hr _ htoken
    obtain ⟨hpunctuates, hextension⟩ := punctuates_of_mem_plain hr
    obtain rfl := htoken.found_eq_nil hpunctuates.silent
    rw [ParserState.behind_eq hpunctuates.stays]
    exact gives_pure ⟨.plain hr htoken, hplain ⟨_, _, _, rfl⟩ hextension⟩
  refine gives_ifEat_behind (by decide) (fun token found rest _ htoken => ?_) fun _ _ => ?_
  · obtain ⟨name, rfl⟩ := htoken.exists_string (by decide)
    exact gives_bind (gives_observe rfl (gives_pure ⟨.language htoken, hplain ⟨_, _, _, rfl⟩ rfl⟩))
  refine gives_ifEat_behind (by decide) (fun token found rest _ htoken => ?_) fun _ _ => ?_
  · obtain ⟨c, d, rfl, hc, hd⟩ := htoken.exists_pair .qualifiedName .string (by decide)
    cases c <;> cases hc
    cases d <;> cases hd
    rename_i name value
    let s₁ := s.movedTo rest token [.qualifiedName name, .string value]
    refine gives_bind (gives_observe rfl (gives_bind (gives_observe rfl ?_)))
    refine (gives_plainName (s := s₁) name value).bind ?_
    rintro _ _ ⟨rfl, rfl⟩
    exact gives_pure ⟨.extension htoken, s₁, ⟨_, _, _, rfl⟩, rfl⟩
  refine gives_ifEat_behind (by decide) (fun token found rest _ htoken => ?_) fun _ _ => ?_
  · obtain rfl := htoken.found_eq_nil (by decide)
    exact gives_pure ⟨.noThesaurus htoken, hplain ⟨_, _, _, rfl⟩ rfl⟩
  refine gives_ifEat_behind (by decide) (fun token found behind hadmits htoken => ?_) fun captures' _ => ?_
  · obtain rfl := htoken.found_eq_nil (by decide)
    let s₁ := s.behind Terminal.thesaurusOption behind token []
    have hs₁ : s₁.scan.admits Terminal.thesaurusAt := (Bool.and_eq_true_iff.1 hs).2
    refine (gives_thesaurusOption hs₁).bind ?_
    rintro value _ ⟨hvalue, s₂, hs₂, rfl⟩
    refine gives_pure ⟨.thesaurus htoken hvalue, hplain ?_ rfl⟩
    obtain ⟨rest, token', captures', rfl⟩ := hs₂
    refine ⟨rest, token', captures', ?_⟩
    -- The state of thesauri has replaced operator position, and is replaced by it.
    change ({ s with scan := { (s.movedTo rest token' captures').scan with
      stack := s.scan.stack.goto .operator } } : ParserState) = _
    rw [← stack_of_admits hs]
    rfl
  · refine (gives_stopWordOption (s := s.movedTo s.rest s.scan.token captures') hs).bind ?_
    rintro (_ | words) s₁ ⟨hs₁, hwords⟩
    · exact gives_unexpected
    · exact gives_pure ⟨hwords words rfl, hplain (ParserState.Moves.trans ⟨_, _, _, rfl⟩ hs₁) rfl⟩

/-! ### All options -/

/-- From a state with some options given, the options of the text are read up to another state and make up a
set of options with those before. -/
structure ReadsOptions (s : ParserState) (given : FtMatchOptions) (written : List WrittenOption)
    (options : FtMatchOptions) (s' : ParserState) : Prop where
  text : SaysOptions s.frame s.rest written s'.rest
  /-- Where an option could follow there is none. -/
  last : s'.scan.admits Terminal.usingOption → Lacks Terminal.usingOption s'.rest
  options : options = given.addAll (written.map WrittenOption.option)
  recorded : s'.recorded = s.recorded ++ WrittenOption.reports given written
  stack : s'.scan.stack = s.scan.stack
  begins : written ≠ [] → s.scan.admits Terminal.usingOption

theorem gives_addMatchOption (s : ParserState) (given : FtMatchOptions) :
    Gives s (addMatchOption given) fun answer s₁ =>
      match answer with
      | .inl next => ∀ options s', (∃ written, ReadsOptions s₁ next written options s') →
        ∃ written, ReadsOptions s given written options s'
      | .inr options => ∃ written, ReadsOptions s given written options s₁ := by
  refine gives_ifEat (by decide) (fun token found behind hadmits husing => ?_) fun captures hlacks => ?_
  swap
  · refine gives_pure ⟨[], .nil _, hlacks, rfl, (List.append_nil _).symm, rfl, fun h => (h rfl).elim⟩
  obtain rfl := husing.found_eq_nil (by decide)
  let s₁ := s.behind Terminal.usingOption behind token []
  let offset := s₁.scan.nextOffset
  refine gives_bind (gives_observe rfl ((gives_matchOption (s := s₁) hadmits offset).bind ?_))
  rintro option _ ⟨hoption, s₂, hs₂, rfl⟩
  let w : WrittenOption := ⟨offset, option⟩
  -- The options behind this one are read in the state behind it, with its errors recorded.
  have hcons {options : FtMatchOptions} {s' : ParserState}
      (h : ∃ written, ReadsOptions { s₂ with recorded := s.recorded ++ (w.unknownPrefix ++ w.duplicate given) }
        (option.addTo given) written options s') :
      ∃ written, ReadsOptions s given written options s' := by
    obtain ⟨written, h⟩ := h
    refine ⟨w :: written, ?_, h.last, h.options, ?_, ?_, fun _ => hadmits⟩
    · have htext := h.text
      have hframe : ParserState.frame { s₂ with recorded := s.recorded ++ (w.unknownPrefix ++ w.duplicate given) } =
          s.frame := hs₂.frame
      rw [hframe] at htext
      exact .cons husing hoption htext
    · rw [h.recorded, WrittenOption.reports, List.append_assoc, List.append_assoc]
    · obtain ⟨_, _, _, rfl⟩ := hs₂
      exact h.stack
  refine gives_ite (fun hgiven => ?_) fun hnew => ?_
  · rintro _ _ ⟨⟩ options s' h
    refine hcons ?_
    rw [WrittenOption.duplicate, if_pos hgiven, ← List.append_assoc]
    exact h
  · refine gives_pure fun options s' h => hcons ?_
    rw [WrittenOption.duplicate, if_neg hnew, List.append_nil]
    exact h

/-- A run of options: whatever options are given before, what the text goes on with is added to them. -/
theorem gives_matchOptions (s : ParserState) :
    Gives s matchOptions fun options s' => ∃ written, ReadsOptions s .empty written options s' :=
  gives_iterate (P := fun s given options s' => ∃ written, ReadsOptions s given written options s')
    (fun s given => (gives_addMatchOption s given).weaken fun answer s₁ h => by cases answer <;> exact h) .empty

/-- What the match options between two states of a parse amount to. -/
structure Accounted (s : ParserState) (written : List WrittenOption) (options : FtMatchOptions)
    (s' : ParserState) : Prop where
  /-- The text says these options, one behind the other. -/
  text : SaysOptions s.frame s.rest written s'.rest
  /-- Where another could follow there is none. -/
  last : s'.scan.admits Terminal.usingOption → Lacks Terminal.usingOption s'.rest
  /-- Of each group the last option counts. -/
  held : ∀ g, options.held? g = (ofGroup g (written.map WrittenOption.option)).getLast?
  /-- All extensions count. -/
  extensions : options.extensions = (written.map WrittenOption.option).filterMap FtMatchOption.extension?
  recorded : s'.recorded = s.recorded ++ WrittenOption.reports .empty written
  /-- Every option of a group but the first is reported. -/
  repeated : (WrittenOption.reports .empty written).countP (·.code = .duplicateMatchOption) =
    (FtOptionGroup.all.map fun g => (ofGroup g (written.map WrittenOption.option)).length - 1).sum
  isEmpty : options.isEmpty = true ↔ written = []
  stack : s'.scan.stack = s.scan.stack
  operator : written ≠ [] → s'.scan.state = .operator

theorem ReadsOptions.accounted {written : List WrittenOption} {options : FtMatchOptions}
    (h : ReadsOptions s .empty written options s') : Accounted s written options s' where
  text := h.text
  last := h.last
  held g := by
    rw [h.options, FtMatchOptions.held?_addAll]
    cases g <;> exact Option.or_none
  extensions := by
    rw [h.options, FtMatchOptions.extensions_addAll]
    rfl
  recorded := h.recorded
  repeated := by
    rw [count_reports]
    rfl
  isEmpty := by rw [h.options, FtMatchOptions.isEmpty_addAll, List.isEmpty_iff, List.map_eq_nil_iff]
  stack := h.stack
  operator hne := by
    rw [Matcher.state, h.stack, stack_of_admits (h.begins hne)]
    rfl

/-- Whatever match options a text has, a full-text search and a declaration of defaults end up with the last
of each group and with all extensions, as the text says them; each further option of a group is reported; and
the parser is left in operator position. -/
theorem match_options_are_accounted :
    (∀ (s : ParserState) options s', matchOptions s = .ok options s' → ∃ written, Accounted s written options s') ∧
    (∀ single, IsSingle single → ∀ n (s : ParserState) search s', s.scan.state = .expression →
      ftPrimaryWithOptions single (additiveExpr single) (ftSelectionWithin single (additiveExpr single) n) s =
        .ok search s' →
      ∃ primary s₁ written options s₂ weight,
        ftPrimary single (additiveExpr single) (ftSelectionWithin single (additiveExpr single) n) s =
          .ok primary s₁ ∧
        Accounted s₁ written options s₂ ∧ s₂.scan.state = .operator ∧
        whenEats Terminal.weightOpen (bracedExpr single) s₂ = .ok weight s' ∧
        search = if written.isEmpty && weight.isNone then primary else .withOptions primary options weight) ∧
    (∀ (s : ParserState) d s', ftOptionDecl s = .ok d s' → ∃ written options s₁,
      Accounted s written options s₁ ∧ written ≠ [] ∧ s₁.scan.state = .operator ∧ d = .ftOption options ∧
      s' = { s₁ with context := { s₁.context with ftOptions := some options } }) := by
  have hoptions (s : ParserState) options s' (h : matchOptions s = .ok options s') :
      ∃ written, Accounted s written options s' := by
    obtain ⟨written, hread⟩ := gives_matchOptions s options s' h
    exact ⟨written, hread.accounted⟩
  refine ⟨hoptions, ?_, ?_⟩
  · intro single hsingle n s search s' hs h
    have hstack : s.scan.stack = ⟨.expression, s.scan.stack.saved⟩ :=
      congrArg (StateStack.mk · s.scan.stack.saved) hs
    have hadditive := operand_additiveExpr hsingle.operand
    have hprimary := operand_ftPrimary hsingle.operand hadditive (operand_ftSelectionWithin hsingle.operand hadditive n)
    obtain ⟨primary, s₁, hp, h⟩ := of_bind_ok h
    obtain ⟨options, s₂, ho, h⟩ := of_bind_ok h
    obtain ⟨weight, s₃, hw, h⟩ := of_bind_ok h
    obtain ⟨written, haccounted⟩ := hoptions s₁ options s₂ ho
    have hstate : s₂.scan.state = .operator := by
      rw [Matcher.state, haccounted.stack, stack_of_leads (hprimary _) hstack hp]
    have hempty : options.isEmpty = written.isEmpty :=
      Bool.eq_iff_iff.2 (haccounted.isEmpty.trans List.isEmpty_iff.symm)
    rw [hempty] at h
    refine ⟨primary, s₁, written, options, s₂, weight, hp, haccounted, hstate, ?_⟩
    split at h <;> rename_i hplain <;> cases h
    · exact ⟨hw, (if_pos hplain).symm⟩
    · exact ⟨hw, (if_neg hplain).symm⟩
  · intro s d s' h
    obtain ⟨options, s₁, ho, h⟩ := of_bind_ok h
    obtain ⟨written, haccounted⟩ := hoptions s options s₁ ho
    split at h <;> rename_i hempty
    · cases h
    have hne : written ≠ [] := fun hnil => hempty (haccounted.isEmpty.2 hnil)
    cases h
    exact ⟨written, options, s₁, haccounted, hne, haccounted.operator hne, rfl, rfl⟩

/-- The state behind an operand, with this text to come. -/
def ParserState.behindOperand (text : String) : ParserState :=
  let s := ParserState.ofText text .standard
  { s with scan := s.scan.goto .operator }

theorem exists_ok_of_answer {r : EStateM.Result Stop ParserState α} (test : α → Bool)
    (h : r.answer.toOption.any test) : ∃ a s', r = .ok a s' ∧ test a = true := by
  cases r with
  | ok a s' => exact ⟨a, s', rfl, h⟩
  | error e s' => cases h

theorem stemming_given_twice_is_accounted :
    (∃ options s' written, matchOptions (.behindOperand " using stemming using no stemming") = .ok options s' ∧
      options.stemming = some false ∧
      Accounted (.behindOperand " using stemming using no stemming") written options s') ∧
    (∃ search s' primary s₁ written options s₂ weight, ftPrimaryWithOptions exprSingle (additiveExpr exprSingle)
        (ftSelectionWithin exprSingle (additiveExpr exprSingle) 1)
        (.ofText "'x' using thesaurus (default, at 'u') using thesaurus default" .standard) = .ok search s' ∧
      Accounted s₁ written options s₂ ∧ s₂.scan.state = .operator ∧
      search = if written.isEmpty && Option.isNone weight then primary else .withOptions primary options weight) ∧
    ∃ d s' written options s₁,
      ftOptionDecl (.behindOperand " using stop words ('a') union at 'u'") = .ok d s' ∧ d = .ftOption options ∧
      Accounted (.behindOperand " using stop words ('a') union at 'u'") written options s₁ ∧ written ≠ [] := by
  have hruns : (matchOptions (.behindOperand " using stemming using no stemming")).answer.toOption.any
        (fun options => options.stemming == some false) ∧
      (ftPrimaryWithOptions exprSingle (additiveExpr exprSingle)
        (ftSelectionWithin exprSingle (additiveExpr exprSingle) 1)
        (.ofText "'x' using thesaurus (default, at 'u') using thesaurus default" .standard)).answer.toOption.any
          (fun _ => true) ∧
      (ftOptionDecl (.behindOperand " using stop words ('a') union at 'u'")).answer.toOption.any (fun _ => true) := by
    decide +kernel
  refine ⟨?_, ?_, ?_⟩
  · obtain ⟨options, s', h, htest⟩ := exists_ok_of_answer _ hruns.1
    obtain ⟨written, haccounted⟩ := match_options_are_accounted.1 _ options s' h
    exact ⟨options, s', written, h, eq_of_beq htest, haccounted⟩
  · obtain ⟨search, s', h, -⟩ := exists_ok_of_answer _ hruns.2.1
    obtain ⟨primary, s₁, written, options, s₂, weight, -, haccounted, hstate, -, hsearch⟩ :=
      match_options_are_accounted.2.1 exprSingle (.inl rfl) 1 _ search s' rfl h
    exact ⟨search, s', primary, s₁, written, options, s₂, weight, h, haccounted, hstate, hsearch⟩
  · obtain ⟨d, s', h, -⟩ := exists_ok_of_answer _ hruns.2.2
    obtain ⟨written, options, s₁, haccounted, hne, -, hd, -⟩ := match_options_are_accounted.2.2 _ d s' h
    exact ⟨d, s', written, options, s₁, h, hd, haccounted, hne⟩

end XQuerySyntax
