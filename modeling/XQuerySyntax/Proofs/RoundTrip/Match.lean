import XQuerySyntax.Proofs.RoundTrip.Glimpse

/-! Patterns that match. What a pattern makes of a text is put together from what its parts make of
the pieces of the text. -/

namespace XQuerySyntax.Scan

/-- The parts of a pattern match the text up to `rest`, and capture this on the way. -/
def Accepts (comments : Bool) (parts : List PatternItem) (afterWord : Bool)
    (anchor : Option (List Char)) (text rest : List Char) (found : Captures) : Prop :=
  ∀ m : Matcher, m.state.skipsComments = comments → m.cursor.rest = text →
    ∃ place, items parts afterWord anchor m =
      .ok (some rest) { m.moveTo place with captures := m.captures ++ found }

variable {comments afterWord : Bool} {parts : List PatternItem} {anchor : Option (List Char)}
  {text text' rest : List Char} {found : Captures}

theorem accepts_nil (text : List Char) : Accepts comments [] afterWord none text text [] := by
  rintro m - rfl
  refine ⟨m.cursor.rest, ?_⟩
  rw [List.append_nil]
  rfl

/-- With an anchor the match goes back to it. -/
theorem accepts_nil_anchor (text rest : List Char) :
    Accepts comments [] afterWord (some rest) text rest [] := by
  rintro m - rfl
  refine ⟨m.cursor.rest, ?_⟩
  rw [List.append_nil]
  rfl

theorem accepts_anchor (h : Accepts comments parts afterWord (some text) text rest found) :
    Accepts comments (.anchor :: parts) afterWord anchor text rest found := by
  rintro m hm rfl
  exact h m hm rfl

theorem accepts_char {c : Char}
    (hend : (PatternItem.isWordChar c || (c == '-' && afterWord)) &&
      !PatternItem.continuesWord parts → endsName text)
    (h : Accepts comments parts (PatternItem.isWordChar c || (c == '-' && afterWord)) anchor text
      rest found) :
    Accepts comments (.char c :: parts) afterWord anchor (c :: text) rest found := by
  intro m hm htext
  obtain ⟨place, hplace⟩ := h (m.moveTo text) hm rfl
  refine ⟨place, ?_⟩
  rw [items, bind_ok (char_cons htext), if_pos rfl]
  split
  · rename_i hword
    have hends : (!(m.moveTo text).cursor.current?.any isNameChar) = true := by
      have hname := hend hword
      change (!text.head?.any isNameChar) = true
      cases text with
      | nil => rfl
      | cons d text =>
        have hd : isNameChar d = false := hname d rfl
        rw [List.head?_cons, Option.any_some, hd]
        rfl
    have hafter : (PatternItem.isWordChar c || (c == '-' && afterWord)) = true :=
      (Bool.and_eq_true_iff.1 hword).1
    rw [hafter] at hplace
    rw [bind_ok (wordEnds_eq _), if_pos hends]
    exact hplace
  · exact hplace

theorem accepts_gap (hskip : scanTrivia comments text = .found () text')
    (hapart : afterWord && PatternItem.startsWord parts → startsTrivia comments text)
    (h : Accepts comments parts afterWord anchor text' rest found) :
    Accepts comments (.gap :: parts) afterWord anchor text rest found := by
  rintro m hm rfl
  rw [← hm] at hskip hapart
  obtain ⟨place, hplace⟩ := h (m.moveTo text') hm rfl
  refine ⟨place, ?_⟩
  rw [items, bind_ok (separated_eq m), bind_ok (skipTrivia_found hskip)]
  split
  · rename_i hwords
    obtain ⟨hwords, hjoined⟩ := Bool.and_eq_true_iff.1 hwords
    rw [hapart hwords] at hjoined
    cases hjoined
  · exact hplace

theorem accepts_capture {kind : Placeholder} {capture : Capture}
    (hread : ∀ m : Matcher, m.cursor.rest = text →
      placeholder kind m = .ok true { m.moveTo text' with captures := m.captures ++ [capture] })
    (h : Accepts comments parts (kind != .string) anchor text' rest found) :
    Accepts comments (.capture kind :: parts) afterWord anchor text rest (capture :: found) := by
  rintro m hm htext
  obtain ⟨place, hplace⟩ :=
    h { m.moveTo text' with captures := m.captures ++ [capture] } hm rfl
  refine ⟨place, ?_⟩
  rw [items, bind_ok (hread m htext), if_pos rfl, hplace, List.append_assoc, List.singleton_append]
  rfl

theorem accepts_name {name : List Char} (hn : isName name) (hend : endsName text)
    (h : Accepts comments parts true anchor text rest found) :
    Accepts comments (.capture .name :: parts) afterWord anchor (name ++ text) rest
      (.name (String.ofList name) :: found) :=
  accepts_capture (fun _ htext => placeholder_name htext hn hend) h

theorem accepts_qualifiedName {name : LexicalName} (hn : scanQualifiedName text = .found name text')
    (h : Accepts comments parts true anchor text' rest found) :
    Accepts comments (.capture .qualifiedName :: parts) afterWord anchor text rest
      (.qualifiedName name :: found) :=
  accepts_capture (fun _ htext => placeholder_qualifiedName (htext ▸ hn)) h

theorem accepts_string {value : String} (hs : scanStringLiteral text = .found value text')
    (h : Accepts comments parts false anchor text' rest found) :
    Accepts comments (.capture .string :: parts) afterWord anchor text rest
      (.string value :: found) :=
  accepts_capture (fun _ htext => (bind_ok (lexeme_found (htext ▸ hs))).trans rfl) h

theorem accepts_number {numeral : Numeral} {value : Literal}
    (hs : scanNumeral text = .found numeral text') (hv : numeral.value = .ok value)
    (h : Accepts comments parts true anchor text' rest found) :
    Accepts comments (.capture .number :: parts) afterWord anchor text rest
      (.number value :: found) := by
  refine accepts_capture (fun m htext => ?_) h
  have hnumber : number m = .ok (some value) (m.moveTo text') := by
    unfold number
    rw [lexeme_found (htext ▸ hs)]
    dsimp only
    rw [hv]
  exact (bind_ok hnumber).trans rfl

/-! ### Fixed spellings -/

/-- What follows a fixed spelling: behind a word no name goes on. -/
def endsSpelling (spelling rest : List Char) : Prop :=
  spelling.any PatternItem.isWordChar → endsName rest

/-- A spelling is a word, or it has nothing of a word in it. -/
def isSpelling (spelling : List Char) : Bool :=
  spelling.all PatternItem.isWordChar || spelling.all fun c => !PatternItem.isWordChar c

theorem accepts_word {spelling : List Char} (hword : spelling.all PatternItem.isWordChar)
    (hend : endsName rest) :
    Accepts comments (spelling.map .char) afterWord none (spelling ++ rest) rest [] := by
  induction spelling generalizing afterWord with
  | nil => exact accepts_nil rest
  | cons c spelling ih =>
    obtain ⟨hc, hall⟩ := Bool.and_eq_true_iff.1 hword
    refine accepts_char ?_ (ih hall)
    intro hlast
    cases spelling with
    | nil => exact hend
    | cons d spelling =>
      obtain ⟨hd, -⟩ := Bool.and_eq_true_iff.1 hall
      simp [PatternItem.continuesWord, hd] at hlast

theorem accepts_symbol {spelling : List Char}
    (hsymbol : spelling.all fun c => !PatternItem.isWordChar c) :
    Accepts comments (spelling.map .char) false none (spelling ++ rest) rest [] := by
  induction spelling with
  | nil => exact accepts_nil rest
  | cons c spelling ih =>
    obtain ⟨hc, hall⟩ := Bool.and_eq_true_iff.1 hsymbol
    have hno : (PatternItem.isWordChar c || (c == '-' && false)) = false := by simpa using hc
    refine accepts_char ?_ ?_
    · intro hword
      rw [hno] at hword
      cases hword
    · rw [hno]
      exact ih hall

/-- A fixed spelling matches where it is written, unless a word goes on. -/
theorem accepts_spelling {spelling : List Char} (h : isSpelling spelling)
    (hend : endsSpelling spelling rest) :
    Accepts comments (spelling.map .char) false none (spelling ++ rest) rest [] := by
  cases spelling with
  | nil => exact accepts_nil rest
  | cons c spelling =>
    rcases Bool.or_eq_true_iff.1 h with hword | hsymbol
    · refine accepts_word hword (hend ?_)
      rw [List.any_cons, (Bool.and_eq_true_iff.1 hword).1, Bool.true_or]
    · exact accepts_symbol hsymbol

/-! ### Rules that match -/

/-- In the lexical state the rule's pattern matches the text up to `rest` with these captures. -/
def Matches (state : LexicalState) (r : Rule) (text rest : List Char) (found : Captures) : Prop :=
  ∀ m : Matcher, m.state = state → m.cursor.rest = text →
    ∃ token, pattern r.items m = .ok true { m.moveTo rest with token, captures := found }

theorem matches_of_accepts {state : LexicalState} {r : Rule}
    (hskip : (if state.skipsBlanks then scanTrivia state.skipsComments text else .found () text) =
      .found () text')
    (h : Accepts state.skipsComments r.items false none text' rest found) :
    Matches state r text rest found := by
  rintro m rfl rfl
  refine ⟨text', ?_⟩
  let m₀ : Matcher := { m with captures := [] }
  have hstart : (if m.state.skipsBlanks then skipTrivia else pure () : Scan Unit) m₀ =
      .ok () (m₀.moveTo text') := by
    split
    · rename_i hblanks
      rw [if_pos hblanks] at hskip
      exact skipTrivia_found (m := m₀) hskip
    · rename_i hblanks
      rw [if_neg hblanks] at hskip
      cases hskip
      rfl
  obtain ⟨place, hplace⟩ := h (m₀.moveTo text') rfl rfl
  unfold pattern
  dsimp only
  rw [hstart]
  dsimp only
  rw [hplace]
  rfl

/-- Space in front of a token is skipped in the states that do so. -/
theorem matches_of_trivia {state : LexicalState} {r : Rule} {space : List Char}
    (hblanks : state.skipsBlanks) (hcomments : state.skipsComments) (hspace : Trivia space)
    (htext : startsTrivia true text = false) (h : Accepts true r.items false none text rest found) :
    Matches state r (space ++ text) rest found := by
  have hskip : (if state.skipsBlanks then scanTrivia state.skipsComments (space ++ text)
      else .found () (space ++ text)) = .found () text := by
    rw [if_pos hblanks, hcomments]
    exact scanTrivia_append hspace htext
  exact matches_of_accepts hskip (by rw [hcomments]; exact h)

end XQuerySyntax.Scan
