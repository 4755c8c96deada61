import XQuerySyntax.Proofs.RoundTrip.Printed

/-! Clauses and types as they are written: keywords, marks, names and literals with space in front of
each. A rule that spells out several keywords takes as many of them at once, whatever space there is
between them; which rules do not match is told from the first few pieces. -/

namespace XQuerySyntax

open Glimpse Scan

/-! ### Pieces -/

/-- The tokens of clauses and types. -/
inductive Piece where
  /-- A keyword, or a mark made of symbols. -/
  | mark (spelling : String)
  | name (n : QName)
  /-- A variable with its dollar sign. -/
  | varName (n : QName)
  | integer (value : Nat)
  | string (value : String)
  /-- The target of a processing instruction. -/
  | target (value : String)

/-- A keyword: letters, digits and hyphens. -/
def isKeyword (spelling : List Char) : Bool :=
  spelling.head?.any isNameStart &&
    spelling.all fun c => PatternItem.isWordChar c || c == '-'

/-- A mark made of symbols, which is not taken for space. -/
def isSymbol (spelling : List Char) : Bool :=
  (spelling.all fun c => !PatternItem.isWordChar c && c != '-') &&
    isSettled (spelling.map .char ++ [.unlike ':'])

/-- A target with single spaces between its words. -/
def normalizedTarget (target : String) : String :=
  String.ofList (List.intercalate [' '] (Rule.words target.toList))

namespace Piece

/-- The text is the piece. -/
def Spells : Piece → List Char → Prop
  | mark spelling, text =>
    (isKeyword spelling.toList || isSymbol spelling.toList) ∧ text = spelling.toList
  | name n, text => n.isLexical ∧ text = n.text.toList
  | varName n, text => n.isLexical ∧ ∃ space, Trivia space ∧ text = '$' :: (space ++ n.text.toList)
  | integer value, text => (Token.integer value).Spells text
  | string value, text => (Token.string value).Spells text
  | target value, text =>
    isName text ∧ text = value.toList ∨
      ∃ written, normalizedTarget written = value ∧ (Token.string written).Spells text

/-- What is behind a piece does not go on with it. -/
def Apart : Piece → List Char → Prop
  | mark spelling, text =>
    if isKeyword spelling.toList then endsName text else ∀ c ∈ text.head?, c ≠ ':'
  | _, text => endsName text ∧ ∀ c ∈ text.head?, c ≠ ':' ∧ c ≠ '"' ∧ c ≠ '\''

end Piece

/-- The text is the pieces and then `rest`, with space in front of every piece. -/
inductive Spaced : List Piece → List Char → List Char → Prop where
  | nil (rest : List Char) : Spaced [] rest rest
  | cons {piece : Piece} {pieces : List Piece} {space chars text rest : List Char}
      (hspace : Trivia space) (hne : space ≠ []) (hchars : piece.Spells chars)
      (htext : Spaced pieces text rest) : Spaced (piece :: pieces) (space ++ (chars ++ text)) rest

/-- The text is the pieces, of which there is at least one, and then `rest`, with space between every
two of them. -/
def Begun : List Piece → List Char → List Char → Prop
  | [], _, _ => False
  | piece :: pieces, text, rest => ∃ space chars text', text = space ++ (chars ++ text') ∧
      Trivia space ∧ piece.Spells chars ∧ Spaced pieces text' rest

variable {piece : Piece} {pieces pieces' : List Piece} {text rest : List Char}

theorem Spaced.blank {chars : List Char} (hchars : piece.Spells chars) (h : Spaced pieces text rest) :
    Spaced (piece :: pieces) ([' '] ++ (chars ++ text)) rest :=
  .cons (.blank ' ' (by decide) .nil) (by decide) hchars h

theorem Spaced.append (h : Spaced (pieces ++ pieces') text rest) :
    ∃ mid, Spaced pieces text mid ∧ Spaced pieces' mid rest := by
  induction pieces generalizing text with
  | nil => exact ⟨text, .nil text, h⟩
  | cons piece pieces ih =>
    cases h with
    | cons hspace hne hchars htext =>
      obtain ⟨mid, h₁, h₂⟩ := ih htext
      exact ⟨mid, .cons hspace hne hchars h₁, h₂⟩

theorem Spaced.begun (h : Spaced pieces text rest) (hne : pieces ≠ []) : Begun pieces text rest := by
  cases h with
  | nil => exact absurd rfl hne
  | cons hspace _ hchars htext => exact ⟨_, _, _, rfl, hspace, hchars, htext⟩

theorem Begun.append (h : Begun (pieces ++ pieces') text rest) (hne : pieces ≠ []) :
    ∃ mid, Begun pieces text mid ∧ Spaced pieces' mid rest := by
  cases pieces with
  | nil => exact absurd rfl hne
  | cons piece pieces =>
    obtain ⟨space, chars, text', rfl, hspace, hchars, htext⟩ := h
    obtain ⟨mid, h₁, h₂⟩ := htext.append
    exact ⟨mid, ⟨space, chars, text', rfl, hspace, hchars, h₁⟩, h₂⟩

theorem Spaced.length_le (h : Spaced pieces text rest) : rest.length + pieces.length ≤ text.length := by
  induction h with
  | nil => exact Nat.le_refl _
  | cons _ hne _ _ ih =>
    have hspace := List.length_pos_iff.2 hne
    simp only [List.length_append, List.length_cons]
    omega

theorem Begun.length_le (h : Begun pieces text rest) : rest.length ≤ text.length := by
  cases pieces with
  | nil => exact h.elim
  | cons piece pieces =>
    obtain ⟨space, chars, mid, rfl, -, -, htext⟩ := h
    have hle := htext.length_le
    simp only [List.length_append]
    omega

theorem Spaced.ends (h : Spaced pieces text rest) (hrest : endsToken rest) : endsToken text := by
  cases h with
  | nil => exact hrest
  | cons hspace hne => exact .of_startsTrivia (hspace.startsTrivia hne _)

/-- No piece goes on where a token may end. -/
theorem endsToken.apart (h : endsToken text) (piece : Piece) : piece.Apart text := by
  have hother : XQuerySyntax.endsName text ∧ ∀ c ∈ text.head?, c ≠ ':' ∧ c ≠ '"' ∧ c ≠ '\'' := by
    exact ⟨h.endsName, fun c hc => ⟨h.ne (by decide) (by decide) c hc, h.ne_quotes c hc⟩⟩
  cases piece with
  | mark spelling =>
    by_cases hword : isKeyword spelling.toList
    · rw [Piece.Apart, if_pos hword]
      exact hother.1
    · rw [Piece.Apart, if_neg hword]
      exact fun c hc => (hother.2 c hc).1
  | _ => exact hother

/-! ### What is seen of them -/

theorem isNameChar_of_mark {c : Char} (h : (PatternItem.isWordChar c || c == '-') = true) :
    isNameChar c := by
  rcases Bool.or_eq_true_iff.1 h with h | h
  · exact isNameChar_of_isWordChar h
  · obtain rfl := eq_of_beq h
    decide

theorem all_isNameChar_of_isKeyword {spelling : List Char} (h : isKeyword spelling) :
    spelling.all isNameChar := by
  obtain ⟨-, hall⟩ := Bool.and_eq_true_iff.1 h
  rw [List.all_eq_true] at hall ⊢
  exact fun c hc => isNameChar_of_mark (hall c hc)

theorem isName_of_isKeyword {spelling : List Char} (h : isKeyword spelling) : isName spelling := by
  have hall := all_isNameChar_of_isKeyword h
  obtain ⟨hhead, -⟩ := Bool.and_eq_true_iff.1 h
  cases spelling with
  | nil => cases hhead
  | cons c cs =>
    exact Bool.and_eq_true_iff.2 ⟨hhead, (Bool.and_eq_true_iff.1 hall).2⟩

namespace QName

variable {n : QName}

/-- What is seen of a name. -/
def view (n : QName) : List Glimpse :=
  match n.qualifier with
  | none => [.name]
  | some _ => [.name, .char ':', .name]

theorem chars_eq (n : QName) : n.text.toList =
    match n.qualifier with
    | none => n.localPart.toList
    | some q => q.toList ++ ':' :: n.localPart.toList := by
  rw [text]
  cases n.qualifier <;> simp [String.toList_append]

theorem endsName_colon (text : List Char) : endsName (':' :: text) := by
  rintro _ ⟨⟩
  decide

theorem shows_view {rest : List Char} {view' : List Glimpse} (h : n.isLexical) (hends : endsName rest)
    (hrest : Shows true view' rest) : Shows true (n.view ++ view') (n.text.toList ++ rest) := by
  obtain ⟨hlocal, hqualifier⟩ := Bool.and_eq_true_iff.1 h
  rw [n.chars_eq]
  unfold view
  cases hq : n.qualifier with
  | none => exact ⟨_, rest, rfl, hlocal, hends, hrest⟩
  | some q =>
    rw [hq] at hqualifier
    refine ⟨q.toList, ':' :: (n.localPart.toList ++ rest), ?_, hqualifier, endsName_colon _, _, rfl,
      _, rest, rfl, hlocal, hends, hrest⟩
    rw [List.append_assoc, List.cons_append]

theorem scan_append {rest : List Char} (h : n.isLexical) (hends : endsName rest)
    (hcolon : ∀ c ∈ rest.head?, c ≠ ':') :
    scanQualifiedName (n.text.toList ++ rest) = .found ⟨n.qualifier, n.localPart⟩ rest := by
  obtain ⟨hlocal, hqualifier⟩ := Bool.and_eq_true_iff.1 h
  rw [n.chars_eq]
  cases hq : n.qualifier with
  | none =>
    have hscan := scanQualifiedName_append hlocal hends hcolon
    rw [String.ofList_toList] at hscan
    exact hscan
  | some q =>
    rw [hq] at hqualifier
    have hscan := scanQualifiedName_pair hqualifier hlocal hends
    rw [String.ofList_toList, String.ofList_toList] at hscan
    rw [List.append_assoc, List.cons_append]
    exact hscan

theorem settled {rest : List Char} (h : n.isLexical) (hends : endsName rest) :
    startsTrivia true (n.text.toList ++ rest) = false := by
  have hnone : Shows true [] rest := trivial
  have hs := shows_view h hends hnone
  refine hs.settled ?_
  unfold view
  split <;> rfl

end QName

namespace Piece

/-- What is seen of a piece, and whether it is all of it. -/
def glimpses : Piece → List Glimpse × Bool
  | mark spelling =>
    if isKeyword spelling.toList then ([.word spelling.toList], true)
    else (spelling.toList.map .char, true)
  | name n => (n.view, true)
  | varName _ => ([.char '$'], false)
  | integer _ => ([.digit], false)
  | string _ | target _ => ([], false)

/-- What is seen of pieces, given what is seen behind them. -/
def views (behind : List Glimpse) : List Piece → List Glimpse
  | [] => behind
  | [piece] => piece.glimpses.1 ++ if piece.glimpses.2 then behind else []
  | piece :: next :: pieces =>
    piece.glimpses.1 ++ if piece.glimpses.2 then .gap :: views behind (next :: pieces) else []

theorem shows_quote {value : String} {chars rest : List Char} (h : (Token.string value).Spells chars) :
    ∃ quote, (quote = '"' ∨ quote = '\'') ∧ Shows true [.char quote] (chars ++ rest) := by
  obtain ⟨quote, body, hquote, -, rfl⟩ := h
  exact ⟨quote, hquote, body ++ [quote] ++ rest, rfl, trivial⟩

theorem Spells.shows {chars rest : List Char} {behind : List Glimpse} (h : piece.Spells chars)
    (hends : endsName rest) (hrest : Shows true behind rest) :
    Shows true (piece.glimpses.1 ++ if piece.glimpses.2 then behind else []) (chars ++ rest) := by
  cases piece with
  | mark spelling =>
    obtain ⟨hmark, rfl⟩ := h
    by_cases hword : isKeyword spelling.toList
    · rw [glimpses, if_pos hword]
      exact ⟨rest, rfl, all_isNameChar_of_isKeyword hword, hends, hrest⟩
    · rw [glimpses, if_neg hword]
      exact shows_chars _ hrest
  | name n =>
    obtain ⟨hn, rfl⟩ := h
    exact QName.shows_view hn hends hrest
  | varName n =>
    obtain ⟨-, space, -, rfl⟩ := h
    exact ⟨_, rfl, trivial⟩
  | integer value =>
    obtain ⟨hne, hdigits, -⟩ := h
    obtain ⟨c, chars, rfl⟩ := List.exists_cons_of_ne_nil hne
    exact ⟨c, chars ++ rest, rfl, hdigits c List.mem_cons_self, trivial⟩
  | string value => trivial
  | target value => trivial

/-- No piece is space. -/
theorem Spells.settled_of_apart {chars rest : List Char} (h : piece.Spells chars) (hapart : piece.Apart rest) :
    startsTrivia true (chars ++ rest) = false := by
  have of_string {value : String} (hs : (Token.string value).Spells chars) :
      startsTrivia true (chars ++ rest) = false := by
    have hquote : ∃ quote, (quote = '"' ∨ quote = '\'') ∧ Shows true [.char quote] (chars ++ rest) := shows_quote hs
    obtain ⟨quote, rfl | rfl, hs⟩ := hquote
    · exact hs.settled rfl
    · exact hs.settled rfl
  cases piece with
  | mark spelling =>
    obtain ⟨hmark, rfl⟩ := h
    by_cases hword : isKeyword spelling.toList
    · rw [Apart, if_pos hword] at hapart
      have hs : Shows true [.name] (spelling.toList ++ rest) :=
        ⟨_, rest, rfl, isName_of_isKeyword hword, hapart, trivial⟩
      exact hs.settled rfl
    · rw [Apart, if_neg hword] at hapart
      obtain ⟨-, hset⟩ := Bool.and_eq_true_iff.1 ((Bool.or_eq_true_iff.1 hmark).resolve_left hword)
      have hcolon : Shows true [.unlike ':'] rest := hapart
      exact (shows_chars _ hcolon).settled hset
  | name n => exact h.2 ▸ QName.settled h.1 hapart.1
  | varName n =>
    obtain ⟨-, space, -, rfl⟩ := h
    have hs : Shows true [.char '$'] ('$' :: (space ++ n.text.toList) ++ rest) := ⟨_, rfl, trivial⟩
    exact hs.settled rfl
  | integer value =>
    obtain ⟨hne, hdigits, -⟩ := h
    obtain ⟨c, chars, rfl⟩ := List.exists_cons_of_ne_nil hne
    have hs : Shows true [.digit] (c :: chars ++ rest) :=
      ⟨c, chars ++ rest, rfl, hdigits c List.mem_cons_self, trivial⟩
    exact hs.settled rfl
  | string value => exact of_string h
  | target value =>
    rcases h with ⟨hname, -⟩ | ⟨written, -, hs⟩
    · have hs : Shows true [.name] (chars ++ rest) := ⟨_, rest, rfl, hname, hapart.1, trivial⟩
      exact hs.settled rfl
    · exact of_string hs

theorem Spells.settled {chars rest : List Char} (h : piece.Spells chars) (hends : endsToken rest) :
    startsTrivia true (chars ++ rest) = false := h.settled_of_apart (hends.apart piece)

end Piece

variable {behind : List Glimpse}

theorem Spaced.shows (h : Spaced (piece :: pieces) text rest) (hends : endsToken rest)
    (hrest : Shows true behind rest) : Shows true (.gap :: Piece.views behind (piece :: pieces)) text := by
  induction pieces generalizing piece text with
  | nil =>
    cases h with
    | cons hspace hne hchars htext =>
      cases htext
      exact ⟨_, hspace.startsTrivia hne _, scanTrivia_append hspace (hchars.settled hends),
        hchars.shows hends.endsName hrest⟩
  | cons next pieces ih =>
    cases h with
    | cons hspace hne hchars htext =>
      have hmid := htext.ends hends
      exact ⟨_, hspace.startsTrivia hne _, scanTrivia_append hspace (hchars.settled hmid),
        hchars.shows hmid.endsName (ih htext)⟩

/-- The text begins with what is seen of the pieces. -/
theorem Begun.begins (h : Begun pieces text rest) (hends : endsToken rest)
    (hrest : Shows true behind rest) : Begins [Piece.views behind pieces] text := by
  cases pieces with
  | nil => exact h.elim
  | cons piece pieces =>
    obtain ⟨space, chars, text', rfl, hspace, hchars, htext⟩ := h
    cases pieces with
    | nil =>
      cases htext
      exact begins_token hspace List.mem_cons_self (hchars.shows hends.endsName hrest)
    | cons next pieces =>
      have hmid := (htext.ends hends).endsName
      exact begins_token hspace List.mem_cons_self (hchars.shows hmid (htext.shows hends hrest))

/-- What is seen of a piece whatever follows it. -/
def Piece.front : Piece → List Glimpse
  | mark spelling =>
    if isKeyword spelling.toList then [.word spelling.toList]
    else spelling.toList.map .char ++ [.unlike ':']
  | name _ => [.name]
  | varName _ => [.char '$']
  | integer _ => [.digit]
  | string _ | target _ => []

theorem Piece.Spells.shows_front {chars : List Char} (h : piece.Spells chars) (hapart : piece.Apart rest) :
    Shows true piece.front (chars ++ rest) := by
  cases piece with
  | mark spelling =>
    obtain ⟨-, rfl⟩ := h
    by_cases hword : isKeyword spelling.toList
    · rw [Apart, if_pos hword] at hapart
      rw [front, if_pos hword]
      exact ⟨rest, rfl, all_isNameChar_of_isKeyword hword, hapart, trivial⟩
    · rw [Apart, if_neg hword] at hapart
      have hcolon : Shows true [.unlike ':'] rest := hapart
      rw [front, if_neg hword]
      exact shows_chars _ hcolon
  | name n =>
    obtain ⟨hn, rfl⟩ := h
    have hnone : Shows true [] rest := trivial
    have hs := QName.shows_view hn hapart.1 hnone
    unfold QName.view at hs
    split at hs
    · exact hs
    · obtain ⟨q, text', htext, hq, hend, -⟩ := hs
      exact ⟨q, text', htext, hq, hend, trivial⟩
  | varName n =>
    obtain ⟨-, space, -, rfl⟩ := h
    exact ⟨_, rfl, trivial⟩
  | integer value =>
    obtain ⟨hne, hdigits, -⟩ := h
    obtain ⟨c, chars, rfl⟩ := List.exists_cons_of_ne_nil hne
    exact ⟨c, chars ++ rest, rfl, hdigits c List.mem_cons_self, trivial⟩
  | string value => trivial
  | target value => trivial

theorem Begun.begins_front (h : Begun (piece :: pieces) text rest) (hends : endsToken rest) :
    Begins [piece.front] text := by
  obtain ⟨space, chars, text', rfl, hspace, hchars, htext⟩ := h
  exact begins_token hspace List.mem_cons_self (hchars.shows_front ((htext.ends hends).apart piece))

/-- Whether the rule certainly does not match in the lexical state where the text begins so, behind
any space. -/
def Scan.declinesAt (state : LexicalState) (r : Rule) (view : List Glimpse) : Bool :=
  state.skipsBlanks && state.skipsComments && isSettled view && Scan.declines state r view

theorem Scan.declinesAt_eq : declinesAt = fun state r view =>
    state.skipsBlanks && state.skipsComments && isSettled view && declinesBytes state r view := by
  rw [← declines_eq]
  rfl

theorem Begins.declinesAt {state : LexicalState} {r : Rule} {view : List Glimpse}
    (h : Begins [view] text) (hr : Scan.declinesAt state r view) : Parser.Declines state text r := by
  simp only [Scan.declinesAt, Bool.and_eq_true] at hr
  obtain ⟨⟨⟨hblanks, hcomments⟩, hset⟩, hdecline⟩ := hr
  exact h.declines_in hblanks hcomments (by simpa using hset) (by simpa using hdecline)

/-- Rules are told apart from what comes next by its first few pieces. -/
theorem Begun.declines (h : Begun (pieces ++ pieces') text rest) (hne : pieces ≠ [])
    (hends : endsToken rest) (state : LexicalState) (r : Rule)
    (hr : Scan.declinesAt state r (Piece.views [] pieces)) : Parser.Declines state text r := by
  obtain ⟨mid, hfirst, hmore⟩ := h.append hne
  have hnone : Shows true [] mid := trivial
  exact (hfirst.begins (hmore.ends hends) hnone).declinesAt hr

theorem Begun.declines_front (h : Begun (piece :: pieces) text rest) (hends : endsToken rest)
    (state : LexicalState) (r : Rule) (hr : Scan.declinesAt state r piece.front) :
    Parser.Declines state text r := (h.begins_front hends).declinesAt hr

/-! ### Rules that spell out keywords -/

/-- The parts of a pattern with a gap in front of each of the words. -/
def gapped (words : List String) (tail : List PatternItem) : List PatternItem :=
  words.foldr (fun word parts => .gap :: (word.toList.map .char ++ parts)) tail

/-- The rule is allowed in the lexical state, which has comments, and its pattern is these words and
then the tail. -/
def Rule.isPhrase (r : Rule) (state : LexicalState) (first : String) (more : List String)
    (tail : List PatternItem) : Bool :=
  r.states.contains state && state.skipsBlanks && state.skipsComments &&
    r.items = first.toList.map .char ++ gapped more tail

/-- Marks one after the other. -/
abbrev marks (words : List String) : List Piece := words.map .mark

variable {parts tail : List PatternItem} {mid rest' : List Char} {found : Captures} {afterWord : Bool}
  {first : String} {more : List String} {state : LexicalState} {r : Rule}

theorem accepts_keyword {spelling : List Char}
    (h : (spelling.all fun c => PatternItem.isWordChar c || c == '-') = true) (hends : endsName rest)
    (hparts : ∀ w, Accepts true parts w none rest rest' found) :
    Accepts true (spelling.map .char ++ parts) afterWord none (spelling ++ rest) rest' found := by
  induction spelling generalizing afterWord with
  | nil => exact hparts afterWord
  | cons c spelling ih =>
    obtain ⟨-, hall⟩ := Bool.and_eq_true_iff.1 h
    refine accepts_char (fun hlast => ?_) (ih hall)
    cases spelling with
    | nil => exact hends
    | cons d spelling =>
      obtain ⟨hd, -⟩ := Bool.and_eq_true_iff.1 hall
      obtain ⟨-, hstop⟩ := Bool.and_eq_true_iff.1 hlast
      have hgoes : PatternItem.continuesWord ((d :: spelling).map .char ++ parts) = true := hd
      rw [Bool.not_eq_true'] at hstop
      exact absurd (hgoes.symm.trans hstop) (by decide)

theorem accepts_symbols {spelling : List Char}
    (h : (spelling.all fun c => !PatternItem.isWordChar c && c != '-') = true)
    (hparts : ∀ w, Accepts true parts w none rest rest' found) :
    Accepts true (spelling.map .char ++ parts) afterWord none (spelling ++ rest) rest' found := by
  induction spelling generalizing afterWord with
  | nil => exact hparts afterWord
  | cons c spelling ih =>
    obtain ⟨hc, hall⟩ := Bool.and_eq_true_iff.1 h
    obtain ⟨hword, hhyphen⟩ := Bool.and_eq_true_iff.1 hc
    refine accepts_char (fun hlast => ?_) (ih hall)
    rw [Bool.not_eq_true'] at hword
    rw [hword, beq_eq_false_iff_ne.2 (bne_iff_ne.1 hhyphen)] at hlast
    cases hlast

theorem Piece.Spells.accepts {spelling : String} {chars : List Char} (h : (mark spelling).Spells chars)
    (hapart : (mark spelling).Apart rest) (hparts : ∀ w, Accepts true parts w none rest rest' found) :
    Accepts true (spelling.toList.map .char ++ parts) afterWord none (chars ++ rest) rest' found := by
  obtain ⟨hmark, rfl⟩ := h
  by_cases hword : isKeyword spelling.toList
  · rw [Apart, if_pos hword] at hapart
    exact accepts_keyword (Bool.and_eq_true_iff.1 hword).2 hapart hparts
  · have hsymbol := (Bool.or_eq_true_iff.1 hmark).resolve_left hword
    exact accepts_symbols (Bool.and_eq_true_iff.1 hsymbol).1 hparts

theorem Spaced.accepts (h : Spaced (marks more) text mid) (hends : endsToken mid)
    (htail : ∀ w, Accepts true tail w none mid rest' found) (w : Bool) :
    Accepts true (gapped more tail) w none text rest' found := by
  induction more generalizing text w with
  | nil =>
    cases h
    exact htail w
  | cons word more ih =>
    cases h with
    | @cons _ _ space chars text' _ hspace hne hchars htext =>
      have hmid := htext.ends hends
      exact accepts_gap (scanTrivia_append hspace (hchars.settled hmid))
        (fun _ => hspace.startsTrivia hne _) (hchars.accepts (hmid.apart _) (ih htext))

/-- A phrase matches its words, if the tail of the pattern matches what follows. -/
theorem Begun.matches_phrase (h : Begun (marks (first :: more)) text mid) (hends : endsToken mid)
    (hr : r.isPhrase state first more tail) (htail : ∀ w, Accepts true tail w none mid rest' found) :
    Scan.Matches state r text rest' found := by
  obtain ⟨space, chars, text', rfl, hspace, hchars, htext⟩ := h
  simp only [Rule.isPhrase, Bool.and_eq_true, decide_eq_true_eq] at hr
  obtain ⟨⟨⟨-, hblanks⟩, hcomments⟩, hitems⟩ := hr
  have hmid := htext.ends hends
  apply matches_of_trivia hblanks hcomments hspace (hchars.settled hmid)
  rw [hitems]
  exact hchars.accepts (hmid.apart _) (htext.accepts hends htail)

theorem allowed_of_isPhrase (hr : r.isPhrase state first more tail) : r.states.contains state := by
  simp only [Rule.isPhrase, Bool.and_eq_true] at hr
  exact hr.1.1.1

theorem Piece.Spells.ne_nil {chars : List Char} (h : piece.Spells chars) : chars ≠ [] := by
  rintro rfl
  have hends : endsToken [' '] := by
    rintro _ ⟨⟩
    exact .inl rfl
  cases h.settled hends

theorem Begun.length_lt (h : Begun (piece :: pieces) text rest) : rest.length < text.length := by
  obtain ⟨space, chars, mid, rfl, -, hchars, htext⟩ := h
  have hlonger := List.length_pos_iff.2 hchars.ne_nil
  have hle := htext.length_le
  simp only [List.length_append]
  omega

/-- A rule that spells out what comes next matches it. -/
theorem Begun.matches_words (h : Begun (marks (first :: more) ++ pieces) text rest)
    (hends : endsToken rest) (state : LexicalState) (r : Rule) (hr : r.isPhrase state first more []) :
    ∃ mid, Spaced pieces mid rest ∧ mid.length < text.length ∧ Scan.Matches state r text mid [] := by
  obtain ⟨mid, hwords, hmid⟩ := h.append (List.cons_ne_nil _ _)
  refine ⟨mid, hmid, hwords.length_lt, ?_⟩
  exact hwords.matches_phrase (hmid.ends hends) hr fun _ => accepts_nil mid

/-- A rule that spells out what comes next takes it. -/
theorem Begun.takes (h : Begun (marks (first :: more) ++ pieces) text rest) (hends : endsToken rest)
    (state : LexicalState) (r : Rule) (hcore : r.extension = .core)
    (hr : r.isPhrase state first more []) :
    ∃ mid, Spaced pieces mid rest ∧ mid.length < text.length ∧ Parser.Takes state text r mid [] := by
  obtain ⟨mid, hmid, hlt, hmatch⟩ := h.matches_words hends state r hr
  exact ⟨mid, hmid, hlt, hcore, allowed_of_isPhrase hr, hmatch⟩

/-- A rule of an extension takes what it spells out, where the extension is on. -/
theorem Begun.takes_under {x : Extensions} (h : Begun (marks (first :: more) ++ pieces) text rest)
    (hends : endsToken rest) (state : LexicalState) (r : Rule) (henabled : x.enables r.extension)
    (hr : r.isPhrase state first more []) :
    ∃ mid, Spaced pieces mid rest ∧ mid.length < text.length ∧
      Parser.TakesUnder x state text r mid [] := by
  obtain ⟨mid, hmid, hlt, hmatch⟩ := h.matches_words hends state r hr
  exact ⟨mid, hmid, hlt, henabled, allowed_of_isPhrase hr, hmatch⟩

theorem Begun.takes_mark {word : String} (h : Begun (.mark word :: pieces) text rest)
    (hends : endsToken rest) (state : LexicalState) (r : Rule) (hcore : r.extension = .core)
    (hr : r.isPhrase state word [] []) :
    ∃ mid, Spaced pieces mid rest ∧ mid.length < text.length ∧ Parser.Takes state text r mid [] := by
  have hmark : Begun (marks [word] ++ pieces) text rest := h
  exact hmark.takes hends state r hcore hr

/-- The tail of a pattern that looks for a variable and leaves it there. -/
def variableAhead : List PatternItem := [.gap, .anchor, .char '$']

/-- A rule that spells out what comes in front of a variable takes it and leaves the variable. -/
theorem Begun.matches_variable {n : QName}
    (h : Begun (marks (first :: more) ++ .varName n :: pieces) text rest) (hends : endsToken rest)
    (state : LexicalState) (r : Rule) (hr : r.isPhrase state first more variableAhead) :
    ∃ mid, Begun (.varName n :: pieces) mid rest ∧ mid.length < text.length ∧
      Scan.Matches state r text mid [] := by
  obtain ⟨mid, hwords, hmid⟩ := h.append (List.cons_ne_nil _ _)
  have hlt := hwords.length_lt
  have hmidEnds := hmid.ends hends
  cases hmid with
  | @cons _ _ space chars text' _ hspace hne hchars htext =>
    have hset := hchars.settled (htext.ends hends)
    obtain ⟨hn, inside, hinside, rfl⟩ := hchars
    refine ⟨'$' :: (inside ++ n.text.toList) ++ text', ?_, ?_, ?_⟩
    · exact ⟨[], _, text', rfl, .nil, ⟨hn, inside, hinside, rfl⟩, htext⟩
    · simp only [List.length_append] at hlt ⊢
      omega
    · refine hwords.matches_phrase hmidEnds hr fun w => ?_
      apply accepts_gap (scanTrivia_append hspace hset) (fun h => absurd h (by simp [PatternItem.startsWord, PatternItem.isWordChar]))
      apply accepts_anchor
      exact accepts_char (fun h => absurd h (by simp [PatternItem.isWordChar])) (accepts_nil_anchor _ _)

theorem Begun.takes_variable {n : QName}
    (h : Begun (marks (first :: more) ++ .varName n :: pieces) text rest) (hends : endsToken rest)
    (state : LexicalState) (r : Rule) (hcore : r.extension = .core)
    (hr : r.isPhrase state first more variableAhead) :
    ∃ mid, Begun (.varName n :: pieces) mid rest ∧ mid.length < text.length ∧
      Parser.Takes state text r mid [] := by
  obtain ⟨mid, hmid, hlt, hmatch⟩ := h.matches_variable hends state r hr
  exact ⟨mid, hmid, hlt, hcore, allowed_of_isPhrase hr, hmatch⟩

/-! ### Rules that take a single piece -/

/-- A name is taken by the rule of names. -/
theorem Piece.Spells.takes_name {n : QName} {space chars : List Char} (hchars : (name n).Spells chars)
    (hspace : Trivia space) (hapart : (name n).Apart mid) (state : LexicalState) (r : Rule)
    (hcore : r.extension = .core)
    (hr : (r.states.contains state && state.skipsBlanks && state.skipsComments &&
      r.items = [.capture .qualifiedName]) = true) :
    Parser.Takes state (space ++ (chars ++ mid)) r mid [.qualifiedName ⟨n.qualifier, n.localPart⟩] := by
  have hset := hchars.settled_of_apart hapart
  simp only [Bool.and_eq_true, decide_eq_true_eq] at hr
  obtain ⟨⟨⟨hstate, hblanks⟩, hcomments⟩, hitems⟩ := hr
  obtain ⟨hn, rfl⟩ := hchars
  apply takes_of_accepts hcore hstate hblanks hcomments hspace hset
  rw [hitems]
  exact accepts_qualifiedName (QName.scan_append hn hapart.1 fun c hc => (hapart.2 c hc).1) (accepts_nil mid)

theorem Begun.takes_name {n : QName} (h : Begun (.name n :: pieces) text rest) (hends : endsToken rest)
    (state : LexicalState) (r : Rule) (hcore : r.extension = .core)
    (hr : (r.states.contains state && state.skipsBlanks && state.skipsComments &&
      r.items = [.capture .qualifiedName]) = true) :
    ∃ mid, Spaced pieces mid rest ∧ mid.length < text.length ∧
      Parser.Takes state text r mid [.qualifiedName ⟨n.qualifier, n.localPart⟩] := by
  obtain ⟨space, chars, mid, rfl, hspace, hchars, htext⟩ := h
  have hlonger := List.length_pos_iff.2 hchars.ne_nil
  refine ⟨mid, htext, ?_, hchars.takes_name hspace ((htext.ends hends).apart _) state r hcore hr⟩
  simp only [List.length_append]
  omega

/-- The target of a processing instruction is taken as a name or as a string. -/
theorem Piece.Spells.takes_target {value : String} {space chars : List Char}
    (hchars : (target value).Spells chars) (hspace : Trivia space) (hapart : (target value).Apart mid) :
    Parser.Takes .kindTest (space ++ (chars ++ mid)) Terminal.kindNcname mid [.name value] ∨
      ∃ written, normalizedTarget written = value ∧
        Parser.Declines .kindTest (space ++ (chars ++ mid)) Terminal.kindNcname ∧
          Parser.Takes .kindTest (space ++ (chars ++ mid)) Terminal.kindString mid [.string written] := by
  have hset := hchars.settled_of_apart hapart
  rcases hchars with ⟨hname, rfl⟩ | ⟨written, hvalue, hstring⟩
  · left
    have hitems : Terminal.kindNcname.items = [.capture .name] := by rfl
    apply takes_of_accepts rfl rfl rfl rfl hspace hset
    have haccepts : Accepts true [.capture .name] false none (value.toList ++ mid) mid
        [.name (String.ofList value.toList)] := accepts_name hname hapart.1 (accepts_nil mid)
    rw [String.ofList_toList] at haccepts
    rw [hitems]
    exact haccepts
  · refine .inr ⟨written, hvalue, ?_, ?_⟩
    · obtain ⟨quote, hquote, hs⟩ : ∃ quote, (quote = '"' ∨ quote = '\'') ∧
          Shows true [.char quote] (chars ++ mid) := Piece.shows_quote hstring
      have hbegins : Begins [[.char quote]] (space ++ (chars ++ mid)) :=
        begins_token hspace List.mem_cons_self hs
      rcases hquote with rfl | rfl
      · exact hbegins.declinesAt (by rfl)
      · exact hbegins.declinesAt (by rfl)
    · have hitems : Terminal.kindString.items = [.capture .string] := by rfl
      apply takes_of_accepts rfl rfl rfl rfl hspace hset
      rw [hitems]
      exact hstring.accepts_string (fun c hc => (hapart.2 c hc).2) (accepts_nil mid)

/-- A variable is taken with its dollar sign. -/
theorem Begun.takes_reference {n : QName} (h : Begun (.varName n :: pieces) text rest)
    (hends : endsToken rest) (state : LexicalState)
    (hr : (Terminal.variableReference.states.contains state && state.skipsBlanks &&
      state.skipsComments) = true) :
    ∃ mid, Spaced pieces mid rest ∧ mid.length < text.length ∧
      Parser.Takes state text Terminal.variableReference mid
        [.qualifiedName ⟨n.qualifier, n.localPart⟩] := by
  obtain ⟨space, chars, mid, rfl, hspace, hchars, htext⟩ := h
  have hmid := htext.ends hends
  have hset := hchars.settled hmid
  have hlonger := List.length_pos_iff.2 hchars.ne_nil
  simp only [Bool.and_eq_true] at hr
  obtain ⟨⟨hstate, hblanks⟩, hcomments⟩ := hr
  obtain ⟨hn, inside, hinside, rfl⟩ := hchars
  refine ⟨mid, htext, ?_, takes_of_accepts rfl hstate hblanks hcomments hspace hset ?_⟩
  · simp only [List.length_append] at hlonger ⊢
    omega
  · have hitems : Terminal.variableReference.items =
        [.char '$', .gap, .capture .qualifiedName] := by rfl
    rw [hitems, List.cons_append, List.append_assoc]
    apply accepts_char (fun h => absurd h (by decide))
    apply accepts_gap (scanTrivia_append hinside (QName.settled hn hmid.endsName))
      (fun h => absurd h (by decide))
    have hscan := QName.scan_append hn hmid.endsName (hmid.ne (by decide) (by decide))
    exact accepts_qualifiedName hscan (accepts_nil mid)

end XQuerySyntax

/-! ### Types

Sequence types as they are written, what of them can be written in a context, and how deeply they are
nested. -/

namespace XQuerySyntax

/-! ### Names -/

/-- The star resolves, and a name where it does. -/
def ElementName.ResolvesIn (context : StaticContext) (default : Option String) :
    ElementName → Prop
  | name n => n.ResolvesIn context default
  | wildcard => True

/-! ### Printing -/

/-- A keyword with its arguments in parentheses. -/
def callPieces (word : String) (args : List Piece) : List Piece :=
  marks [word, "("] ++ (args ++ [Piece.mark ")"])

/-- The indicator of an occurrence. -/
def Occurrence.pieces : Occurrence → List Piece
  | exactlyOne => []
  | zeroOrOne => [.mark "?"]
  | zeroOrMore => [.mark "*"]
  | oneOrMore => [.mark "+"]

/-- A name, or the star. -/
def ElementName.piece : ElementName → Piece
  | name n => .name n
  | wildcard => .mark "*"

/-- A type annotation. -/
def ContentType.pieces (type : ContentType) : List Piece :=
  .name type.typeName :: if type.nillable then [.mark "?"] else []

/-- The arguments of an element or attribute test. -/
def testPieces (name : Option ElementName) (type : Option ContentType) : List Piece :=
  match name with
  | none => []
  | some name => name.piece ::
    match type with
    | none => []
    | some type => .mark "," :: type.pieces

namespace KindTest

/-- The keyword of a kind test. -/
def keyword : KindTest → String
  | document _ => "document-node"
  | element .. => "element"
  | .attribute .. => "attribute"
  | schemaElement _ => "schema-element"
  | schemaAttribute _ => "schema-attribute"
  | processingInstruction _ => "processing-instruction"
  | comment => "comment"
  | text => "text"
  | namespaceNode => "namespace-node"
  | anyKind => "node"

/-- A kind test. -/
def pieces : KindTest → List Piece
  | document none => callPieces "document-node" []
  | document (some root) => callPieces "document-node" root.pieces
  | element name type => callPieces "element" (testPieces name type)
  | .attribute name type => callPieces "attribute" (testPieces name type)
  | schemaElement name => callPieces "schema-element" [.name name]
  | schemaAttribute name => callPieces "schema-attribute" [.name name]
  | processingInstruction target =>
    callPieces "processing-instruction" (target.toList.map .target)
  | comment => callPieces "comment" []
  | text => callPieces "text" []
  | namespaceNode => callPieces "namespace-node" []
  | anyKind => callPieces "node" []

end KindTest

mutual

/-- A sequence type: an item type and its indicator. -/
def SequenceType.pieces : SequenceType → List Piece
  | .mk itemType occurrence => itemType.pieces ++ occurrence.pieces

/-- An item type. -/
def ItemType.pieces : ItemType → List Piece
  | .emptySequence => callPieces "empty-sequence" []
  | .item => callPieces "item" []
  | .atomicOrUnion name => [.name name]
  | .kindTest test => test.pieces
  | .anyFunction => callPieces "function" [.mark "*"]
  | .functionTest [] result => callPieces "function" [] ++ .mark "as" :: result.pieces
  | .functionTest (param :: params) result =>
    callPieces "function" (param.pieces ++ furtherPieces params) ++ .mark "as" :: result.pieces
  | .parenthesized inner => .mark "(" :: (inner.pieces ++ [Piece.mark ")"])

/-- Sequence types with a comma in front of each. -/
def furtherPieces : List SequenceType → List Piece
  | [] => []
  | type :: types => .mark "," :: (type.pieces ++ furtherPieces types)

end

/-! ### Types that can be written -/

/-- A test without a name has no type annotation, the names resolve, and only an element may be nil. -/
structure TestWellWritten (context : StaticContext) (isElement : Bool) (name : Option ElementName)
    (type : Option ContentType) : Prop where
  named : name = none → type = none
  resolves : ∀ n ∈ name, n.ResolvesIn context (if isElement then context.elementNamespace? else none)
  typed : ∀ t ∈ type, t.typeName.ResolvesIn context context.elementNamespace?
  nillable : ∀ t ∈ type, t.nillable → isElement

/-- The root of a document is tested as an element. -/
inductive RootWellWritten (context : StaticContext) : KindTest → Prop
  | element {name : Option ElementName} {type : Option ContentType}
    (h : TestWellWritten context true name type) : RootWellWritten context (.element name type)
  | schemaElement {name : QName} (h : name.ResolvesIn context context.elementNamespace?) :
    RootWellWritten context (.schemaElement name)

/-- The names of the test resolve. -/
inductive KindTest.WellWritten (context : StaticContext) : KindTest → Prop
  | anyDocument : KindTest.WellWritten context (.document none)
  | document {root : KindTest} (h : RootWellWritten context root) :
    KindTest.WellWritten context (.document (some root))
  | root {test : KindTest} (h : RootWellWritten context test) : KindTest.WellWritten context test
  | attributeTest {name : Option ElementName} {type : Option ContentType}
    (h : TestWellWritten context false name type) :
    KindTest.WellWritten context (.attribute name type)
  | schemaAttribute {name : QName} (h : name.ResolvesIn context none) :
    KindTest.WellWritten context (.schemaAttribute name)
  | processingInstruction (target : Option String) :
    KindTest.WellWritten context (.processingInstruction target)
  | comment : KindTest.WellWritten context .comment
  | text : KindTest.WellWritten context .text
  | namespaceNode : KindTest.WellWritten context .namespaceNode
  | anyKind : KindTest.WellWritten context .anyKind

/-- An occurrence indicator behind the item type would belong to the result of a function. -/
def ItemType.takesIndicator : ItemType → Bool
  | functionTest .. => false
  | _ => true

mutual

/-- The names of the type resolve, and what takes no occurrence indicator has none. -/
inductive SequenceType.WellWritten (context : StaticContext) : SequenceType → Prop
  | empty : SequenceType.WellWritten context (.single .emptySequence)
  | items {itemType : ItemType} {occurrence : Occurrence} (h : itemType.WellWritten context)
    (hindicator : itemType.takesIndicator ∨ occurrence = .exactlyOne) :
    SequenceType.WellWritten context (.mk itemType occurrence)

/-- The names of an item type other than that of the empty sequence resolve. -/
inductive ItemType.WellWritten (context : StaticContext) : ItemType → Prop
  | item : ItemType.WellWritten context .item
  | atomicOrUnion {name : QName} (h : name.ResolvesIn context context.elementNamespace?) :
    ItemType.WellWritten context (.atomicOrUnion name)
  | kindTest {test : KindTest} (h : test.WellWritten context) :
    ItemType.WellWritten context (.kindTest test)
  | anyFunction : ItemType.WellWritten context .anyFunction
  | functionTest {params : List SequenceType} {result : SequenceType}
    (hp : ∀ p ∈ params, p.WellWritten context) (hr : result.WellWritten context) :
    ItemType.WellWritten context (.functionTest params result)
  | parenthesized {inner : ItemType} (h : inner.WellWritten context) :
    ItemType.WellWritten context (.parenthesized inner)

end

mutual

/-- The number of sequence types inside one another that count against the limit. -/
def SequenceType.levels : SequenceType → Nat
  | .mk .emptySequence _ => 0
  | .mk itemType _ => itemType.levels + 1

/-- Parentheses do not count. -/
def ItemType.levels : ItemType → Nat
  | .functionTest params result => max (levelsOfAll params) result.levels
  | .parenthesized inner => inner.levels
  | _ => 0

/-- The largest number of levels in any of the types. -/
def levelsOfAll : List SequenceType → Nat
  | [] => 0
  | type :: types => max type.levels (levelsOfAll types)

end

end XQuerySyntax
