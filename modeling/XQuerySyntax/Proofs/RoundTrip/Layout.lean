import XQuerySyntax.Proofs.RoundTrip.Phrase

/-! Pieces with or without space between them. A keyword or a name needs something behind it that does not
go on with it, which may as well be a mark. -/

namespace XQuerySyntax

open Glimpse Scan

variable {piece : Piece} {pieces pieces' : List Piece} {space chars text mid rest rest' : List Char}
  {state : LexicalState} {r : Rule} {tail : List PatternItem} {found : Captures}
  {first second : String} {more : List String}

/-! ### Layouts -/

/-- The text is the pieces and then `rest`, with space in front of any of the pieces. -/
inductive Laid : List Piece → List Char → List Char → Prop where
  | nil (rest : List Char) : Laid [] rest rest
  | cons {piece : Piece} {pieces : List Piece} {space chars text rest : List Char} (hspace : Trivia space)
      (hchars : piece.Spells chars) (hapart : piece.Apart text) (htext : Laid pieces text rest) :
      Laid (piece :: pieces) (space ++ (chars ++ text)) rest

theorem Spaced.laid (h : Spaced pieces text rest) (hends : endsToken rest) : Laid pieces text rest := by
  induction h with
  | nil => exact .nil _
  | cons hspace _ hchars htext ih => exact .cons hspace hchars ((htext.ends hends).apart _) (ih hends)

theorem Begun.laid (h : Begun pieces text rest) (hends : endsToken rest) : Laid pieces text rest := by
  cases pieces with
  | nil => exact h.elim
  | cons piece pieces =>
    obtain ⟨space, chars, mid, rfl, hspace, hchars, htext⟩ := h
    exact .cons hspace hchars ((htext.ends hends).apart piece) (htext.laid hends)

/-- What goes on with no piece may be put behind the text. -/
theorem Piece.Apart.append {after : List Char} (h : piece.Apart text) (hafter : piece.Apart after) :
    piece.Apart (text ++ after) := by
  cases text with
  | nil => exact hafter
  | cons c cs => cases piece <;> exact h

namespace Laid

theorem append (h : Laid (pieces ++ pieces') text rest) : ∃ mid, Laid pieces text mid ∧ Laid pieces' mid rest := by
  induction pieces generalizing text with
  | nil => exact ⟨text, .nil text, h⟩
  | cons piece pieces ih =>
    cases h with
    | cons hspace hchars hapart htext =>
      obtain ⟨mid, h₁, h₂⟩ := ih htext
      exact ⟨mid, .cons hspace hchars hapart h₁, h₂⟩

theorem length_le (h : Laid pieces text rest) : rest.length + pieces.length ≤ text.length := by
  induction h with
  | nil => exact Nat.le_refl _
  | cons _ hchars _ _ ih =>
    have hlonger := List.length_pos_iff.2 hchars.ne_nil
    simp only [List.length_append, List.length_cons]
    omega

theorem append_right {after : List Char} (h : Laid pieces text rest)
    (hafter : ∀ piece : Piece, piece.Apart after) : Laid pieces (text ++ after) (rest ++ after) := by
  induction h with
  | nil => exact .nil _
  | cons hspace hchars hapart _ ih =>
    rw [List.append_assoc, List.append_assoc]
    exact .cons hspace hchars (hapart.append (hafter _)) ih

/-- A mark of symbols may be put right in front of pieces that do not begin with a colon. -/
theorem cons_symbol {word : String} (hword : isKeyword word.toList = false ∧ isSymbol word.toList)
    (htext : text.head?.all (· != ':')) (h : Laid pieces text rest) :
    Laid (.mark word :: pieces) (word.toList ++ text) rest := by
  have hchars : (Piece.mark word).Spells word.toList := ⟨by simp [hword], rfl⟩
  have hapart : (Piece.mark word).Apart text := by
    rw [Piece.Apart, hword.1]
    intro c hc
    exact bne_iff_ne.1 ((Option.all_eq_true _ _).1 htext c hc)
  exact Laid.cons .nil hchars hapart h

/-- A keyword may be put right in front of pieces that do not go on with it. -/
theorem cons_keyword {word : String} (hword : isKeyword word.toList)
    (htext : text.head?.all fun c => !isNameChar c) (h : Laid pieces text rest) :
    Laid (.mark word :: pieces) (word.toList ++ text) rest := by
  have hchars : (Piece.mark word).Spells word.toList := ⟨by simp [hword], rfl⟩
  have hapart : (Piece.mark word).Apart text := by
    rw [Piece.Apart, if_pos hword]
    intro c hc
    simpa using (Option.all_eq_true _ _).1 htext c hc
  exact Laid.cons .nil hchars hapart h

/-! ### What is seen of them -/

theorem begins_front (h : Laid (piece :: pieces) text rest) : Begins [piece.front] text := by
  cases h with
  | cons hspace hchars hapart htext =>
    exact begins_token hspace List.mem_cons_self (hchars.shows_front hapart)

/-- Rules are told apart from a piece by what it begins with. -/
theorem declines_front (h : Laid (piece :: pieces) text rest) (state : LexicalState) (r : Rule)
    (hr : declinesAt state r piece.front) : Parser.Declines state text r := h.begins_front.declinesAt hr

end Laid

/-- What is seen of a keyword and a mark behind it, with space between them or without. -/
def pairViews (first second : String) : List (List Glimpse) :=
  [.word first.toList :: .gap :: (Piece.mark second).front, .word first.toList :: (Piece.mark second).front]

/-- Whether the rule certainly does not match where the text begins in one of these ways. -/
def Scan.declinesEvery (state : LexicalState) (r : Rule) (views : List (List Glimpse)) : Bool :=
  views.all (declinesAt state r)

theorem Scan.declinesEvery_eq : declinesEvery = fun state r views => views.all fun view =>
    state.skipsBlanks && state.skipsComments && isSettled view && declinesBytes state r view := by
  rw [← declines_eq]
  rfl

theorem Begins.declinesEvery {views : List (List Glimpse)} (h : Begins views text)
    (hr : Scan.declinesEvery state r views) : Parser.Declines state text r := by
  obtain ⟨space, body, view, htext, hspace, hview, hs⟩ := h
  have hbegins : Begins [view] text := ⟨space, body, view, htext, hspace, List.mem_cons_self, hs⟩
  exact hbegins.declinesAt (List.all_eq_true.1 hr view hview)

namespace Laid

theorem begins_pair (h : Laid (.mark first :: .mark second :: pieces) text rest)
    (hword : isKeyword first.toList) :
    Begins (pairViews first second) text := by
  cases h with
  | @cons _ _ space chars behind _ hspace hchars hapart htext =>
    obtain ⟨-, rfl⟩ := hchars
    rw [Piece.Apart, if_pos hword] at hapart
    have hname := all_isNameChar_of_isKeyword hword
    cases htext with
    | @cons _ _ gap symbol mid _ hgap hsymbol hapart' htext =>
      have hset := hsymbol.settled_of_apart hapart'
      have hs := hsymbol.shows_front hapart'
      by_cases hne : gap = []
      · subst hne
        exact begins_token hspace (List.mem_cons_of_mem _ List.mem_cons_self) ⟨_, rfl, hname, hapart, hs⟩
      · have hskip := scanTrivia_append hgap hset
        exact begins_token hspace List.mem_cons_self
          ⟨_, rfl, hname, hapart, _, hgap.startsTrivia hne _, hskip, hs⟩

/-! ### Rules that match -/

/-- Marks other than keywords may follow each other and a keyword without space. -/
theorem accepts (h : Laid (marks more) text mid) (hmore : more.all fun word => !isKeyword word.toList)
    (htail : ∀ w, Accepts true tail w none mid rest' found) (w : Bool) :
    Accepts true (gapped more tail) w none text rest' found := by
  induction more generalizing text w with
  | nil =>
    cases h
    exact htail w
  | cons word more ih =>
    obtain ⟨hword, hmore⟩ := Bool.and_eq_true_iff.1 hmore
    cases h with
    | @cons _ _ space chars text' _ hspace hchars hapart htext =>
      have hset := hchars.settled_of_apart hapart
      obtain ⟨hmark, rfl⟩ := hchars
      have hsymbol : isSymbol word.toList := by
        rw [Bool.not_eq_true'] at hword
        rwa [hword, Bool.false_or] at hmark
      obtain ⟨hchars, -⟩ := Bool.and_eq_true_iff.1 hsymbol
      refine accepts_gap (scanTrivia_append hspace hset) (fun hwords => ?_) (accepts_symbols hchars (ih htext hmore))
      obtain ⟨c, cs, hcs⟩ : ∃ c cs, word.toList = c :: cs := by
        refine List.exists_cons_of_ne_nil fun hnil => ?_
        rw [hnil] at hsymbol
        exact absurd hsymbol (by decide)
      have hc : PatternItem.isWordChar c = false := by
        have hfirst := List.all_eq_true.1 hchars c (hcs ▸ List.mem_cons_self)
        simpa using (Bool.and_eq_true_iff.1 hfirst).1
      obtain ⟨-, hstarts⟩ := Bool.and_eq_true_iff.1 hwords
      rw [hcs] at hstarts
      exact absurd (hc.symm.trans hstarts) (by decide)

/-- A rule that spells out what comes next takes it. -/
theorem takes (h : Laid (marks (first :: more) ++ pieces) text rest) (state : LexicalState) (r : Rule)
    (hcore : r.extension = .core) (hr : r.isPhrase state first more [])
    (hmore : more.all fun word => !isKeyword word.toList) :
    ∃ mid, Laid pieces mid rest ∧ Parser.Takes state text r mid [] := by
  have hallowed := allowed_of_isPhrase hr
  simp only [Rule.isPhrase, Bool.and_eq_true, decide_eq_true_eq] at hr
  obtain ⟨⟨⟨-, hblanks⟩, hcomments⟩, hitems⟩ := hr
  cases h with
  | cons hspace hchars hapart htext =>
    obtain ⟨mid, hwords, hmid⟩ := htext.append
    refine ⟨mid, hmid, hcore, hallowed, ?_⟩
    apply matches_of_trivia hblanks hcomments hspace (hchars.settled_of_apart hapart)
    rw [hitems]
    exact hchars.accepts hapart (hwords.accepts hmore fun _ => accepts_nil mid)

theorem takes_mark (h : Laid (.mark first :: pieces) text rest) (state : LexicalState) (r : Rule)
    (hcore : r.extension = .core) (hr : r.isPhrase state first [] []) :
    ∃ mid, Laid pieces mid rest ∧ Parser.Takes state text r mid [] := by
  have hmark : Laid (marks [first] ++ pieces) text rest := h
  exact hmark.takes state r hcore hr rfl

theorem takes_name {n : QName} (h : Laid (.name n :: pieces) text rest) (state : LexicalState) (r : Rule)
    (hcore : r.extension = .core)
    (hr : (r.states.contains state && state.skipsBlanks && state.skipsComments &&
      r.items = [.capture .qualifiedName]) = true) :
    ∃ mid, Laid pieces mid rest ∧
      Parser.Takes state text r mid [.qualifiedName ⟨n.qualifier, n.localPart⟩] := by
  cases h with
  | cons hspace hchars hapart htext => exact ⟨_, htext, hchars.takes_name hspace hapart state r hcore hr⟩

theorem takes_target {value : String} (h : Laid (.target value :: pieces) text rest) :
    ∃ mid, Laid pieces mid rest ∧ (Parser.Takes .kindTest text Terminal.kindNcname mid [.name value] ∨
      ∃ written, normalizedTarget written = value ∧ Parser.Declines .kindTest text Terminal.kindNcname ∧
        Parser.Takes .kindTest text Terminal.kindString mid [.string written]) := by
  cases h with
  | cons hspace hchars hapart htext => exact ⟨_, htext, hchars.takes_target hspace hapart⟩

end Laid

end XQuerySyntax
