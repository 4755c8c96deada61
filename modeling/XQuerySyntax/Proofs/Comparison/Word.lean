import Mathlib.Data.List.TakeWhile
import XQuerySyntax.Grammar.Module
import XQuerySyntax.Proofs.Comparison.Comparison
import XQuerySyntax.Proofs.Comparison.Footprint
import XQuerySyntax.Proofs.RoundTrip.Glimpse

/-! Words in a text. What a rule has matched stands in the text: the words of its pattern, apart from
other names, and the space between them. -/

namespace XQuerySyntax

/-- Behind this text a word can begin: it does not end in a name character. -/
def OpensWord (before : List Char) : Prop := ∀ c ∈ before.getLast?, isNameChar c = false

/-- The word stands in the text. -/
def HasWord (word text : List Char) : Prop :=
  ∃ before after, text = before ++ (word ++ after) ∧ OpensWord before ∧ endsName after

/-- The words stand in the text one behind the other, with nothing but space between them. -/
def HasWords (first second text : List Char) : Prop :=
  ∃ before space after, text = before ++ (first ++ (space ++ (second ++ after))) ∧ OpensWord before ∧
    Trivia space ∧ space ≠ [] ∧ endsName after

theorem opensWord_concat (before : List Char) {c : Char} (hc : isNameChar c = false) :
    OpensWord (before ++ [c]) := by
  intro d hd
  rw [List.getLast?_concat] at hd
  cases hd
  exact hc

/-- A text stands apart if its end does. -/
theorem opensWord_append (before : List Char) {space : List Char} (hspace : OpensWord space) (hne : space ≠ []) :
    OpensWord (before ++ space) := by
  intro c hc
  rw [List.getLast?_append_of_ne_nil _ hne] at hc
  exact hspace c hc

/-! ### Space -/

theorem commentTail_of_skipCommentBody {depth : Nat} {text rest : List Char}
    (h : skipCommentBody depth text = some rest) :
    ∃ body, CommentTail depth body ∧ text = body ++ rest := by
  fun_induction skipCommentBody depth text with
  | case1 => cases h
  | case2 depth cs ih =>
    obtain ⟨body, hbody, rfl⟩ := ih h
    exact ⟨_, .enter hbody, rfl⟩
  | case3 cs =>
    cases h
    exact ⟨_, .close, rfl⟩
  | case4 depth cs ih =>
    obtain ⟨body, hbody, rfl⟩ := ih h
    exact ⟨_, .leave hbody, rfl⟩
  | case5 depth c cs hopen hclose hleave ih =>
    obtain ⟨body, hbody, rfl⟩ := ih h
    refine ⟨c :: body, .char c ?_ ?_ hbody, rfl⟩
    · rintro inner hinner
      obtain ⟨rfl, rfl⟩ := List.cons.inj hinner
      exact hopen (inner ++ rest) rfl rfl
    · rintro inner hinner
      obtain ⟨rfl, rfl⟩ := List.cons.inj hinner
      cases depth with
      | zero => exact hclose (inner ++ rest) rfl rfl rfl
      | succ depth => exact hleave depth (inner ++ rest) rfl rfl rfl

theorem CommentTail.opensWord {depth : Nat} {body : List Char} (h : CommentTail depth body) : OpensWord body := by
  induction h with
  | close => exact opensWord_concat [':'] (by rfl)
  | leave htail ih => exact opensWord_append [':', ')'] ih htail.ne_nil
  | enter htail ih => exact opensWord_append ['(', ':'] ih htail.ne_nil
  | char c _ _ htail ih => exact opensWord_append [c] ih htail.ne_nil

theorem isNameChar_of_isBlank {c : Char} (h : isBlank c) : isNameChar c = false := by
  unfold isBlank at h
  simp only [Bool.or_eq_true, beq_iff_eq] at h
  obtain ((rfl | rfl) | rfl) | rfl := h <;> rfl

/-- Space between tokens stands apart from the words around it. -/
theorem Trivia.opensWord {space : List Char} (h : Trivia space) : OpensWord space := by
  induction h with
  | nil => exact fun _ h => nomatch h
  | @blank text c hc _ ih =>
    by_cases ht : text = []
    · subst ht
      exact opensWord_concat [] (isNameChar_of_isBlank hc)
    · exact opensWord_append [c] ih ht
  | @comment body text hbody _ ih =>
    by_cases ht : text = []
    · subst ht
      rw [List.append_nil]
      exact opensWord_append ['(', ':'] hbody.opensWord hbody.ne_nil
    · exact opensWord_append ('(' :: ':' :: body) ih ht

theorem Trivia.blanks_append {blanks space : List Char} (hb : ∀ c ∈ blanks, isBlank c)
    (h : Trivia space) : Trivia (blanks ++ space) := by
  induction blanks with
  | nil => exact h
  | cons c cs ih =>
    rw [List.forall_mem_cons] at hb
    exact .blank c hb.1 (ih hb.2)

theorem scanTrivia_ne_absent (comments : Bool) (text : List Char) : scanTrivia comments text ≠ .absent := by
  fun_induction scanTrivia comments text with
  | case1 _ _ _ _ _ _ ih => exact ih
  | case2 | case3 => exact nofun

/-- What is skipped is space, and there is some if the text begins with some. -/
theorem trivia_of_scanTrivia {text rest : List Char} (h : scanTrivia true text = .found () rest) :
    ∃ space, Trivia space ∧ text = space ++ rest ∧ (startsTrivia true text = true → space ≠ []) := by
  have hsplit : text.takeWhile isBlank ++ text.dropWhile isBlank = text := List.takeWhile_append_dropWhile
  have hblanks : ∀ c ∈ text.takeWhile isBlank, isBlank c := fun _ => List.mem_takeWhile_imp
  rw [scanTrivia_eq] at h
  split at h
  · rename_i hcomment
    split at h
    · rename_i inner hskip
      have hlt : inner.length < text.length := by
        have h₁ := length_of_skipCommentBody hskip
        have h₂ : (text.dropWhile isBlank).length ≤ text.length :=
          (List.dropWhile_sublist isBlank).length_le
        simp only [List.length_drop] at h₁
        omega
      obtain ⟨space, hspace, hinner, -⟩ := trivia_of_scanTrivia h
      obtain ⟨body, hbody, hdrop⟩ := commentTail_of_skipCommentBody hskip
      rw [Bool.true_and] at hcomment
      have hopen : text.dropWhile isBlank = '(' :: ':' :: (text.dropWhile isBlank).drop 2 := by
        unfold startsComment at hcomment
        split at hcomment
        · rename_i cs hcs
          rw [hcs]
          rfl
        · cases hcomment
      refine ⟨text.takeWhile isBlank ++ '(' :: ':' :: (body ++ space),
        .blanks_append hblanks (.comment hbody hspace), ?_, fun _ h => by simp at h⟩
      rw [hdrop, hinner] at hopen
      conv_lhs => rw [← hsplit, hopen]
      simp
    · cases h
  · rename_i hcomment
    cases h
    have hspace : Trivia (text.takeWhile isBlank) := by simpa using Trivia.blanks_append hblanks .nil
    refine ⟨text.takeWhile isBlank, hspace, hsplit.symm, fun hstarts hnil => ?_⟩
    rw [hnil, List.nil_append] at hsplit
    rw [hsplit, Bool.true_and] at hcomment
    cases text with
    | nil => cases hstarts
    | cons c cs =>
      have hblank : isBlank c = true := by simpa [startsTrivia, hcomment] using hstarts
      rw [List.takeWhile_cons_of_pos hblank] at hnil
      cases hnil
termination_by text.length

/-! ### Names -/

theorem endsName_of_scanName {text rest : List Char} {name : String} (h : scanName text = .found name rest) :
    endsName rest := by
  cases text with
  | nil => cases h
  | cons c cs =>
    rw [scanName] at h
    split at h <;> cases h
    intro d hd
    rw [← List.find?_not_eq_head?_dropWhile] at hd
    simpa using List.find?_some hd

theorem endsName_of_scanQualifiedName {text rest : List Char} {name : LexicalName}
    (h : scanQualifiedName text = .found name rest) : endsName rest := by
  unfold scanQualifiedName at h
  split at h
  · split at h <;> cases h
    · exact endsName_of_scanName ‹_›
    · rintro _ ⟨⟩
      rfl
  · cases h
    exact endsName_of_scanName ‹_›
  · cases h
  · cases h

namespace Scan

variable {α β : Type} {m m₁ m₂ : Matcher} {parts : List PatternItem} {afterWord : Bool}
  {anchor : Option (List Char)} {place : List Char}

theorem scanTrivia_of_skipTrivia (hm : m.state.skipsComments = true) (h : skipTrivia m = .ok () m₁) :
    ∃ text, scanTrivia true m.cursor.rest = .found () text ∧ m₁ = m.moveTo text := by
  change EStateM.map _ (lexeme (scanTrivia m.state.skipsComments)) m = _ at h
  unfold EStateM.map lexeme at h
  rw [hm] at h
  cases hscan : scanTrivia true m.cursor.rest with
  | found a text =>
    rw [hscan] at h
    cases h
    exact ⟨text, rfl, rfl⟩
  | absent => exact (scanTrivia_ne_absent _ _ hscan).elim
  | faulty fault place =>
    rw [hscan] at h
    cases h

theorem skipTrivia_ok (hm : m.state.skipsComments = true) (h : skipTrivia m = .ok () m₁) :
    ∃ space text, Trivia space ∧ m.cursor.rest = space ++ text ∧ m₁ = m.moveTo text ∧
      (startsTrivia true m.cursor.rest = true → space ≠ []) := by
  obtain ⟨text, hscan, rfl⟩ := scanTrivia_of_skipTrivia hm h
  obtain ⟨space, hspace, hrest, hne⟩ := trivia_of_scanTrivia hscan
  exact ⟨space, text, hspace, hrest, rfl, hne⟩

theorem items_nil_ok (h : items [] afterWord anchor m = .ok (some place) m₁) :
    place = anchor.getD m.cursor.rest := by
  obtain ⟨_, _, ⟨⟩, hpure⟩ := of_bind_ok h
  cases hpure
  rfl

theorem char_ok {c : Char} (h : char c m = .ok true m₁) :
    ∃ text, m.cursor.rest = c :: text ∧ m₁ = m.moveTo text := by
  unfold char at h
  split at h <;> rename_i hcurrent <;> cases h
  obtain ⟨text, htext⟩ := List.head?_eq_some_iff.1 hcurrent
  refine ⟨text, htext, ?_⟩
  rw [Cursor.advance, htext]
  rfl

theorem items_char_ok {c : Char} (hc : PatternItem.isWordChar c = true)
    (h : items (.char c :: parts) afterWord anchor m = .ok (some place) m₁) :
    ∃ text, m.cursor.rest = c :: text ∧ items parts true anchor (m.moveTo text) = .ok (some place) m₁ ∧
      (PatternItem.continuesWord parts = false → endsName text) := by
  obtain ⟨matched, m₂, hmatch, h⟩ := of_bind_ok h
  cases matched with
  | false => cases h
  | true =>
    obtain ⟨text, htext, rfl⟩ := char_ok hmatch
    rw [if_pos rfl, hc, Bool.true_or] at h
    refine ⟨text, htext, ?_⟩
    split at h <;> rename_i hword
    · rw [bind_ok (wordEnds_eq _)] at h
      split at h <;> rename_i hends
      · exact ⟨h, fun _ => endsName_of_wordEnds hends⟩
      · cases h
    · refine ⟨h, fun hcontinues => ?_⟩
      rw [hcontinues] at hword
      exact (hword rfl).elim

/-- The letters of a word stand in the text, and the word ends behind them. -/
theorem items_word_ok {word : List Char} (hne : word ≠ []) (hword : word.all PatternItem.isWordChar)
    (hparts : PatternItem.continuesWord parts = false)
    (h : items (word.map .char ++ parts) afterWord anchor m = .ok (some place) m₁) :
    ∃ text, m.cursor.rest = word ++ text ∧ endsName text ∧
      items parts true anchor (m.moveTo text) = .ok (some place) m₁ := by
  induction word generalizing m afterWord with
  | nil => exact (hne rfl).elim
  | cons c word ih =>
    rw [List.all_cons, Bool.and_eq_true] at hword
    obtain ⟨text, htext, hitems, hends⟩ := items_char_ok hword.1 h
    by_cases hlast : word = []
    · subst hlast
      exact ⟨text, htext, hends hparts, hitems⟩
    · obtain ⟨rest, hrest, hends, hlast⟩ := ih hlast hword.2 hitems
      refine ⟨rest, ?_, hends, hlast⟩
      rw [htext, show text = word ++ rest from hrest]
      rfl

theorem items_gap_ok (hm : m.state.skipsComments = true)
    (h : items (.gap :: parts) afterWord anchor m = .ok (some place) m₁) :
    ∃ space text, Trivia space ∧ m.cursor.rest = space ++ text ∧
      items parts afterWord anchor (m.moveTo text) = .ok (some place) m₁ ∧
      (afterWord && PatternItem.startsWord parts → space ≠ []) := by
  obtain ⟨apart, _, ⟨⟩, h⟩ := of_bind_ok h
  obtain ⟨_, m₂, hskip, h⟩ := of_bind_ok h
  obtain ⟨space, text, hspace, hrest, rfl, hne⟩ := skipTrivia_ok hm hskip
  split at h <;> rename_i hapart
  · cases h
  · refine ⟨space, text, hspace, hrest, h, fun hwords => hne ?_⟩
    simpa [hwords, hm] using hapart

/-- Outside markup a rule matches behind space. -/
theorem eat_ok {r : Rule} (hstates : ∀ state, r.states.contains state = true → state.isMarkup = false)
    (h : eat r m = .ok true m₁) : ∃ m₂ m₃ space, m₂.state.skipsComments = true ∧ Trivia space ∧
      m.cursor.rest = space ++ m₂.cursor.rest ∧
      items r.items false none m₂ = .ok (some m₁.cursor.rest) m₃ := by
  obtain ⟨m', he, hadmits, hp⟩ | ⟨m', he, -⟩ | ⟨d, m', he, -⟩ := eat_cases r m <;> rw [he] at h <;>
    cases h
  have hmarkup : m.state.isMarkup = false := hstates m.state (Bool.and_eq_true_iff.1 hadmits).1
  have hcomments : m.state.skipsComments = true := by rw [LexicalState.skipsComments, hmarkup]; rfl
  have hfront : skipFront m.state = skipTrivia := by
    cases hs : m.state <;> rw [hs] at hmarkup <;> first | rfl | cases hmarkup
  rw [pattern_eq, hfront] at hp
  cases hskip : skipTrivia { m with captures := [] } with
  | error d m₂ =>
    rw [hskip] at hp
    cases hp
  | ok _ m₂ =>
    obtain ⟨space, text, hspace, hrest, rfl, -⟩ := skipTrivia_ok (m := { m with captures := [] }) hcomments hskip
    rw [hskip] at hp
    dsimp only at hp
    cases hitems : items r.items false none (Matcher.moveTo { m with captures := [] } text) with
    | error d m₃ =>
      rw [hitems] at hp
      cases hp
    | ok found m₃ =>
      rw [hitems] at hp
      cases found with
      | none => cases hp
      | some place =>
        cases hp
        exact ⟨Matcher.moveTo { m with captures := [] } text, m₃, space, hcomments, hspace, hrest, hitems⟩

/-- A rule whose pattern is a word finds this word behind space. -/
theorem eat_word_ok {r : Rule} (word : List Char)
    (hstates : ∀ state, r.states.contains state = true → state.isMarkup = false)
    (hitems : r.items = word.map .char) (hne : word ≠ []) (hword : word.all PatternItem.isWordChar)
    (h : eat r m = .ok true m₁) : ∃ space, Trivia space ∧
      m.cursor.rest = space ++ (word ++ m₁.cursor.rest) ∧ endsName m₁.cursor.rest := by
  obtain ⟨m₂, m₃, space, hm, hspace, hrest, hr⟩ := eat_ok hstates h
  rw [hitems, ← List.append_nil (List.map _ _)] at hr
  obtain ⟨text, htext, hends, hnil⟩ := items_word_ok hne hword rfl hr
  obtain rfl : m₁.cursor.rest = text := items_nil_ok hnil
  exact ⟨space, hspace, by rw [hrest, htext], hends⟩

/-! ### Places for a word that says what a function may do -/

/-- A word can begin at the place: the text that has been read up to there stands apart, or what comes
next is no name character. -/
def Leaves (text place : List Char) : Prop :=
  ∃ front, text = front ++ place ∧ (front ≠ [] ∧ OpensWord front ∨ endsName place)

theorem leaves_declareWord (hm : m.state.skipsComments = true)
    (h : items Terminal.declareWord.items false none m = .ok (some place) m₁) :
    Leaves m.cursor.rest place := by
  have hparts : Terminal.declareWord.items =
      "declare".toList.map .char ++ [PatternItem.gap, .anchor, .capture .name] := by
    decide
  rw [hparts] at h
  obtain ⟨text, htext, -, h⟩ := items_word_ok (by decide) (by decide) (by decide) h
  obtain ⟨space, text', hspace, htext', h, hne⟩ := items_gap_ok (m := m.moveTo text) hm h
  -- The match comes back to the anchor, which stands behind the space.
  obtain ⟨_, _, ⟨⟩, h⟩ := of_bind_ok h
  obtain ⟨matched, m₂, -, h⟩ := of_bind_ok h
  cases matched with
  | false => cases h
  | true =>
    rw [if_pos rfl] at h
    obtain rfl : place = text' := items_nil_ok h
    refine ⟨"declare".toList ++ space, ?_, .inl ⟨by simp, opensWord_append _ hspace.opensWord (hne rfl)⟩⟩
    rw [htext, show text = space ++ place from htext', List.append_assoc]

theorem leaves_declareAnnotated (hm : m.state.skipsComments = true)
    (h : items Terminal.declareAnnotated.items false none m = .ok (some place) m₁) :
    Leaves m.cursor.rest place := by
  have hparts : Terminal.declareAnnotated.items =
      "declare".toList.map .char ++ [PatternItem.gap, .anchor, .percent] := by
    decide
  rw [hparts] at h
  obtain ⟨text, htext, -, h⟩ := items_word_ok (by decide) (by decide) (by decide) h
  obtain ⟨space, text', hspace, htext', h, -⟩ := items_gap_ok (m := m.moveTo text) hm h
  obtain ⟨_, _, ⟨⟩, h⟩ := of_bind_ok h
  obtain ⟨matched, m₂, hchar, h⟩ := of_bind_ok h
  cases matched with
  | false => cases h
  | true =>
    obtain ⟨text₂, htext₂, rfl⟩ := char_ok hchar
    rw [if_pos rfl] at h
    obtain rfl : place = text' := items_nil_ok h
    refine ⟨"declare".toList ++ space, ?_, .inr ?_⟩
    · rw [htext, show text = space ++ place from htext', List.append_assoc]
    · rw [show place = '%' :: text₂ from htext₂]
      rintro _ ⟨⟩
      rfl

/-- A name is read as far as it goes. -/
theorem qualifiedName_ok (h : placeholder .qualifiedName m = .ok true m₁) :
    ∃ front, m.cursor.rest = front ++ m₁.cursor.rest ∧ endsName m₁.cursor.rest := by
  obtain ⟨found, m₂, hlexeme, h⟩ := of_bind_ok h
  unfold lexeme at hlexeme
  split at hlexeme <;> rename_i hs <;> cases hlexeme <;> cases h
  obtain ⟨front, hfront⟩ := hs ▸ scanQualifiedName_within m.cursor.rest
  exact ⟨front, hfront.symm, endsName_of_scanQualifiedName hs⟩

theorem leaves_annotationName (h : items Terminal.annotationName.items false none m = .ok (some place) m₁) :
    Leaves m.cursor.rest place := by
  have hparts : Terminal.annotationName.items = [.percent, .capture .qualifiedName] := by decide
  rw [hparts] at h
  obtain ⟨matched, m₂, hchar, h⟩ := of_bind_ok h
  cases matched with
  | false => cases h
  | true =>
    obtain ⟨text, htext, rfl⟩ := char_ok hchar
    rw [if_pos rfl] at h
    obtain ⟨matched, m₃, hname, h⟩ := of_bind_ok h
    cases matched with
    | false => cases h
    | true =>
      rw [if_pos rfl] at h
      obtain rfl : place = m₃.cursor.rest := items_nil_ok h
      obtain ⟨front, hfront, hends⟩ := qualifiedName_ok hname
      exact ⟨'%' :: front, by rw [htext, show text = front ++ m₃.cursor.rest from hfront]; rfl, .inr hends⟩

theorem leaves_annotationClose
    (h : items Terminal.annotationClose.items false none m = .ok (some place) m₁) :
    Leaves m.cursor.rest place := by
  have hparts : Terminal.annotationClose.items = [.char ')'] := by decide
  rw [hparts] at h
  obtain ⟨matched, m₂, hchar, h⟩ := of_bind_ok h
  cases matched with
  | false => cases h
  | true =>
    obtain ⟨text, htext, rfl⟩ := char_ok hchar
    rw [if_pos rfl, if_neg (by decide)] at h
    obtain rfl : place = text := items_nil_ok h
    exact ⟨[')'], htext, .inl ⟨by decide, opensWord_concat [] (by rfl)⟩⟩

end Scan

/-- In the text a word can begin here: the text before it stands apart, or what comes next is no name
character. -/
def Matcher.Free (text : List Char) (m : Matcher) : Prop :=
  ∃ before, text = before ++ m.cursor.rest ∧ (OpensWord before ∨ endsName m.cursor.rest)

namespace Scan

theorem free_of_eat {text : String} {r : Rule} (hr : r ∈ Terminal.beforeFunctionKind)
    (hm : m.Within text) (h : eat r m = .ok true m₁) : m₁.Free text.toList := by
  have hstates : ∀ r ∈ Terminal.beforeFunctionKind, ∀ state, r.states.contains state = true →
      state.isMarkup = false := by
    intro r hr state
    simp only [Terminal.beforeFunctionKind, List.mem_cons, List.not_mem_nil, or_false] at hr
    obtain rfl | rfl | rfl | rfl := hr <;> cases state <;> decide
  obtain ⟨m₂, m₃, space, hm₂, -, hrest, hitems⟩ := eat_ok (hstates r hr) h
  have hleaves : Leaves m₂.cursor.rest m₁.cursor.rest := by
    simp only [Terminal.beforeFunctionKind, List.mem_cons, List.not_mem_nil, or_false] at hr
    obtain rfl | rfl | rfl | rfl := hr
    · exact leaves_declareWord hm₂ hitems
    · exact leaves_declareAnnotated hm₂ hitems
    · exact leaves_annotationName hitems
    · exact leaves_annotationClose hitems
  obtain ⟨before, hbefore⟩ := hm.rest
  obtain ⟨front, hfront, hapart⟩ := hleaves
  refine ⟨before ++ space ++ front, ?_, hapart.imp_left fun h => opensWord_append _ h.2 h.1⟩
  rw [← hbefore, hrest, hfront]
  simp

/-- A word that is not skipped over cannot begin where a name cannot go on. -/
theorem ne_nil_of_endsName {space word rest : List Char} (hne : word ≠ []) (hword : word.all isNameChar)
    (h : endsName (space ++ (word ++ rest))) : space ≠ [] := by
  rintro rfl
  obtain ⟨c, cs, rfl⟩ := List.exists_cons_of_ne_nil hne
  rw [List.all_cons, Bool.and_eq_true] at hword
  have hc := h c rfl
  rw [hword.1] at hc
  cases hc

/-- A word that is matched where one can begin stands apart. -/
theorem opensWord_of_eat {text : List Char} {r : Rule} (word : List Char) (hfree : m.Free text)
    (hstates : ∀ state, r.states.contains state = true → state.isMarkup = false)
    (hitems : r.items = word.map .char) (hne : word ≠ []) (hword : word.all PatternItem.isWordChar)
    (hname : word.all isNameChar) (h : eat r m = .ok true m₁) :
    ∃ before, text = before ++ (word ++ m₁.cursor.rest) ∧ OpensWord before ∧ endsName m₁.cursor.rest := by
  obtain ⟨space, hspace, hrest, hends⟩ := eat_word_ok word hstates hitems hne hword h
  obtain ⟨before, htext, hapart⟩ := hfree
  refine ⟨before ++ space, by rw [htext, hrest, List.append_assoc], ?_, hends⟩
  by_cases hs : space = []
  · subst hs
    rw [List.append_nil]
    refine hapart.resolve_right fun hfront => ?_
    rw [hrest] at hfront
    exact ne_nil_of_endsName hne hname hfront rfl
  · exact opensWord_append _ hspace.opensWord hs

end Scan

/-- The words that let a function do more, if the extension is there. -/
def Extension.modifiers : Extension → List String
  | .update => ["updating"]
  | .scripting => ["sequential"]
  | _ => []

/-- No word of the text goes unseen if the extension is there: the word that says nothing about a
function, and a word that is not about the variable behind it. -/
def Unheard (x : Extension) (text : String) : Prop :=
  ¬HasWord "simple".toList text.toList ∧
    ∀ word ∈ x.modifiers, ¬HasWords word.toList "variable".toList text.toList

namespace Scan

/-- Behind a word that says what a function may do stands a function. -/
theorem functionKind_of_unheard {text : String} {x : Extension} {r : Rule} (htext : Unheard x text)
    (hr : r ∈ Terminal.functionKinds) (hx : r.extension = x) (hfree : m.Free text.toList)
    (h : eat r m = .ok true m₁) :
    r ≠ Terminal.declareSimple ∧ ∀ m₂, eat Terminal.declareVariable m₁ ≠ .ok true m₂ := by
  obtain ⟨hsimple, hmodifiers⟩ := htext
  have hstates : ∀ state, Terminal.declaration.contains state = true → state.isMarkup = false := by
    intro state
    cases state <;> decide
  -- The word and `variable` behind it would stand in the text.
  have hvariable {word : String} (hword : word ∈ x.modifiers) {before : List Char}
      (hbefore : text.toList = before ++ (word.toList ++ m₁.cursor.rest)) (hapart : OpensWord before)
      (hends : endsName m₁.cursor.rest) (m₂ : Matcher) :
      eat Terminal.declareVariable m₁ ≠ .ok true m₂ := by
    intro hvar
    obtain ⟨space, hspace, hrest, hends'⟩ := eat_word_ok "variable".toList hstates (by decide)
      (by decide) (by decide) hvar
    rw [hrest] at hends hbefore
    exact hmodifiers word hword ⟨before, space, _, hbefore, hapart, hspace,
      ne_nil_of_endsName (by decide) (by rfl) hends, hends'⟩
  simp only [Terminal.functionKinds, List.mem_cons, List.not_mem_nil, or_false] at hr
  obtain rfl | rfl | rfl := hr
  · obtain ⟨before, hbefore, hapart, hends⟩ := opensWord_of_eat "updating".toList hfree hstates
      (by decide) (by decide) (by decide) (by rfl) h
    exact ⟨fun h => (nomatch congrArg Rule.extension h), hvariable (by rw [← hx]; decide) hbefore hapart hends⟩
  · obtain ⟨before, hbefore, hapart, hends⟩ := opensWord_of_eat "sequential".toList hfree hstates
      (by decide) (by decide) (by decide) (by rfl) h
    exact ⟨fun h => absurd (congrArg Rule.pattern h) (by decide), hvariable (by rw [← hx]; decide) hbefore hapart hends⟩
  · obtain ⟨before, hbefore, hapart, hends⟩ := opensWord_of_eat "simple".toList hfree hstates
      (by decide) (by decide) (by decide) (by rfl) h
    exact (hsimple ⟨before, _, hbefore, hapart, hends⟩).elim

end Scan

end XQuerySyntax
