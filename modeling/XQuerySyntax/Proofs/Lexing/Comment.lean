import XQuerySyntax.Proofs.Entry.Word

/-! Comments by counting. A text is read from left to right as openers, closers and other characters, which
do not overlap; a comment is the shortest beginning of a text in which there are as many closers as openers.
Space between tokens is blanks and such comments, and as much of it as there is. -/

namespace XQuerySyntax

/-! ### Openers and closers -/

/-- What a text is read as where comments are looked for. -/
inductive CommentMark where
  | opener
  | closer
  | char (c : Char)
  deriving DecidableEq, Repr

/-- The marks of a text, read from left to right without overlap. -/
def commentMarks : List Char → List CommentMark
  | [] => []
  | '(' :: ':' :: cs => .opener :: commentMarks cs
  | ':' :: ')' :: cs => .closer :: commentMarks cs
  | c :: cs => .char c :: commentMarks cs

/-- The number of openers in a text. -/
def openers (text : List Char) : Nat := (commentMarks text).count .opener

/-- The number of closers in a text. -/
def closers (text : List Char) : Nat := (commentMarks text).count .closer

/-- The text begins with an opener and has as many closers as openers. -/
structure Balances (text : List Char) : Prop where
  opens : startsComment text
  even : closers text = openers text

/-- The shortest beginning of a text that balances. -/
structure ShortestBalanced (front text : List Char) : Prop where
  isPrefix : front <+: text
  balances : Balances front
  shortest : ∀ other, other <+: text → Balances other → front.length ≤ other.length

/-- Blanks and comments one behind the other. A comment balances at its end and not before. -/
def IsSpace (space : List Char) : Prop :=
  ∃ pieces : List (List Char), space = pieces.flatten ∧
    ∀ piece ∈ pieces, (∃ c, isBlank c ∧ piece = [c]) ∨ ShortestBalanced piece piece

variable {text rest front inner : List Char} {depth : Nat} {c : Char}

@[simp]
theorem commentMarks_opener (text : List Char) :
    commentMarks ('(' :: ':' :: text) = .opener :: commentMarks text := rfl

@[simp]
theorem commentMarks_closer (text : List Char) :
    commentMarks (':' :: ')' :: text) = .closer :: commentMarks text := rfl

@[simp]
theorem openers_opener (text : List Char) : openers ('(' :: ':' :: text) = openers text + 1 := by
  simp [openers]

@[simp]
theorem closers_opener (text : List Char) : closers ('(' :: ':' :: text) = closers text := by
  simp [closers]

@[simp]
theorem openers_closer (text : List Char) : openers (':' :: ')' :: text) = openers text := by
  simp [openers]

@[simp]
theorem closers_closer (text : List Char) : closers (':' :: ')' :: text) = closers text + 1 := by
  simp [closers]

/-- A character that begins neither an opener nor a closer is read alone. -/
theorem commentMarks_char (hopen : ∀ cs, c :: text ≠ '(' :: ':' :: cs)
    (hclose : ∀ cs, c :: text ≠ ':' :: ')' :: cs) :
    commentMarks (c :: text) = .char c :: commentMarks text :=
  commentMarks.eq_4 c text (fun cs hc hcs => hopen cs (by rw [hc, hcs]))
    fun cs hc hcs => hclose cs (by rw [hc, hcs])

theorem openers_char (hopen : ∀ cs, c :: text ≠ '(' :: ':' :: cs)
    (hclose : ∀ cs, c :: text ≠ ':' :: ')' :: cs) : openers (c :: text) = openers text := by
  simp [openers, commentMarks_char hopen hclose]

theorem closers_char (hopen : ∀ cs, c :: text ≠ '(' :: ':' :: cs)
    (hclose : ∀ cs, c :: text ≠ ':' :: ')' :: cs) : closers (c :: text) = closers text := by
  simp [closers, commentMarks_char hopen hclose]

theorem startsComment_iff : startsComment text = true ↔ ∃ inner, text = '(' :: ':' :: inner := by
  constructor
  · intro h
    unfold startsComment at h
    split at h
    · exact ⟨_, rfl⟩
    · cases h
  · rintro ⟨inner, rfl⟩
    rfl

/-! ### Where the scanner stops -/

/-- Behind the closer that ends a comment there is one closer more than openers are open. -/
theorem CommentTail.closers_eq {body : List Char} (h : CommentTail depth body) :
    closers body = openers body + depth + 1 := by
  induction h with
  | close => rfl
  | leave _ ih =>
    rw [openers_closer, closers_closer]
    omega
  | enter _ ih =>
    rw [openers_opener, closers_opener]
    omega
  | char c hopen hclose _ ih => rw [openers_char hopen hclose, closers_char hopen hclose, ih]

/-- Up to there no beginning has more closers than are open. A beginning may cut an opener or a closer in
two; what is left of it counts for nothing. -/
theorem closers_le_of_prefix (h : front <+: text)
    (hstop : ∀ rest, skipCommentBody depth text = some rest → front.length + rest.length < text.length) :
    closers front ≤ openers front + depth := by
  induction text using commentMarks.induct generalizing depth front with
  | case1 =>
    rw [List.prefix_nil.1 h]
    exact Nat.zero_le _
  | case2 cs ih =>
    rcases List.prefix_cons_iff.1 h with rfl | ⟨part, rfl, hpart⟩
    · exact Nat.zero_le _
    rcases List.prefix_cons_iff.1 hpart with rfl | ⟨front, rfl, hfront⟩
    · exact Nat.zero_le _
    have hle : closers front ≤ openers front + (depth + 1) := ih hfront fun rest hrest => by
      have hlt := hstop rest hrest
      simp only [List.length_cons] at hlt
      omega
    rw [closers_opener, openers_opener]
    omega
  | case3 cs ih =>
    rcases List.prefix_cons_iff.1 h with rfl | ⟨part, rfl, hpart⟩
    · exact Nat.zero_le _
    rcases List.prefix_cons_iff.1 hpart with rfl | ⟨front, rfl, hfront⟩
    · exact Nat.zero_le _
    cases depth with
    | zero =>
      have hlt := hstop cs rfl
      simp only [List.length_cons] at hlt
      omega
    | succ depth =>
      have hle : closers front ≤ openers front + depth := ih hfront fun rest hrest => by
        have hlt := hstop rest hrest
        simp only [List.length_cons] at hlt
        omega
      rw [closers_closer, openers_closer]
      omega
  | case4 c cs hopen hclose ih =>
    rcases List.prefix_cons_iff.1 h with rfl | ⟨front, rfl, hfront⟩
    · exact Nat.zero_le _
    have hskip : skipCommentBody depth (c :: cs) = skipCommentBody depth cs :=
      skipCommentBody.eq_5 depth c cs hopen (fun cs' _ => hclose cs') fun _ cs' _ => hclose cs'
    have hle : closers front ≤ openers front + depth := ih hfront fun rest hrest => by
      have hlt := hstop rest (hskip.trans hrest)
      simp only [List.length_cons] at hlt
      omega
    -- The character stands alone in the beginning, as it does in the text.
    have halone (d e : Char) (hne : ∀ cs', c = d → cs = e :: cs' → False) (rest : List Char) :
        c :: front ≠ d :: e :: rest := by
      intro heq
      obtain ⟨hc, rfl⟩ := List.cons.inj heq
      obtain ⟨behind, hbehind⟩ := hfront
      exact hne (rest ++ behind) hc (by rw [← hbehind]; rfl)
    rw [openers_char (halone '(' ':' hopen) (halone ':' ')' hclose),
      closers_char (halone '(' ':' hopen) (halone ':' ')' hclose)]
    exact hle

/-! ### Comments -/

/-- What balances at the beginning of a comment is its opener and a text with one closer more. -/
theorem Balances.exists_inner (h : Balances front) (hfront : front <+: '(' :: ':' :: inner) :
    ∃ body, front = '(' :: ':' :: body ∧ body <+: inner ∧ closers body = openers body + 1 := by
  obtain ⟨body, rfl⟩ := startsComment_iff.1 h.opens
  have heven := h.even
  rw [openers_opener, closers_opener] at heven
  exact ⟨body, rfl, (List.cons_prefix_cons.1 (List.cons_prefix_cons.1 hfront).2).2, heven⟩

theorem shortestBalanced_of_skipCommentBody (h : skipCommentBody 0 inner = some rest) :
    ∃ body, inner = body ++ rest ∧ ShortestBalanced ('(' :: ':' :: body) ('(' :: ':' :: inner) := by
  obtain ⟨body, hbody, rfl⟩ := commentTail_of_skipCommentBody h
  refine ⟨body, rfl, ⟨⟨rest, rfl⟩, ⟨rfl, ?_⟩, fun other hother hbalances => ?_⟩⟩
  · rw [openers_opener, closers_opener, hbody.closers_eq]
  · obtain ⟨part, rfl, hpart, hclosers⟩ := hbalances.exists_inner hother
    by_contra hshort
    have hle : closers part ≤ openers part + 0 := closers_le_of_prefix hpart fun rest' hrest' => by
      obtain rfl : rest = rest' := Option.some.inj (h.symm.trans hrest')
      simp only [List.length_cons, List.length_append] at hshort ⊢
      omega
    omega

theorem not_balances_of_skipCommentBody (h : skipCommentBody 0 inner = none)
    (hfront : front <+: '(' :: ':' :: inner) : ¬Balances front := by
  intro hbalances
  obtain ⟨body, rfl, hbody, hclosers⟩ := hbalances.exists_inner hfront
  have hle : closers body ≤ openers body + 0 :=
    closers_le_of_prefix hbody fun rest hrest => by rw [h] at hrest; cases hrest
  omega

theorem ShortestBalanced.unique {other : List Char} (h : ShortestBalanced front text)
    (h' : ShortestBalanced other text) : front = other :=
  (List.prefix_of_prefix_length_le h.isPrefix h'.isPrefix (h.shortest other h'.isPrefix h'.balances)).eq_of_length_le
    (h'.shortest front h.isPrefix h.balances)

theorem scanComment_opener (inner : List Char) :
    scanComment ('(' :: ':' :: inner) =
      match skipCommentBody 0 inner with
      | some rest => .found (String.ofList (('(' :: ':' :: inner).take (('(' :: ':' :: inner).length - rest.length))) rest
      | none => .faulty (.unterminated "comment") ('(' :: ':' :: inner) := rfl

/-- A comment is found exactly as the shortest beginning that balances. -/
theorem scanComment_found_iff {body : String} :
    scanComment ('(' :: ':' :: inner) = .found body rest ↔
      ∃ front, '(' :: ':' :: inner = front ++ rest ∧ body = String.ofList front ∧
        ShortestBalanced front ('(' :: ':' :: inner) := by
  rw [scanComment_opener]
  cases hskip : skipCommentBody 0 inner with
  | none =>
    refine ⟨nofun, ?_⟩
    rintro ⟨front, -, -, hshortest⟩
    exact absurd hshortest.balances (not_balances_of_skipCommentBody hskip hshortest.isPrefix)
  | some rest' =>
    obtain ⟨comment, rfl, hcomment⟩ := shortestBalanced_of_skipCommentBody hskip
    have htake : ('(' :: ':' :: (comment ++ rest')).take
        (('(' :: ':' :: (comment ++ rest')).length - rest'.length) = '(' :: ':' :: comment := by
      rw [← List.cons_append, ← List.cons_append, List.length_append, Nat.add_sub_cancel, List.take_left]
    dsimp only
    rw [htake]
    constructor
    · rintro ⟨⟩
      exact ⟨_, rfl, rfl, hcomment⟩
    · rintro ⟨front, htext, rfl, hfront⟩
      obtain rfl := hcomment.unique hfront
      rw [← List.cons_append, ← List.cons_append, List.append_cancel_left_eq] at htext
      rw [htext]

theorem scanComment_faulty_iff :
    scanComment ('(' :: ':' :: inner) = .faulty (.unterminated "comment") ('(' :: ':' :: inner) ↔
      ∀ front, front <+: '(' :: ':' :: inner → ¬Balances front := by
  rw [scanComment_opener]
  cases hskip : skipCommentBody 0 inner with
  | none => exact ⟨fun _ _ => not_balances_of_skipCommentBody hskip, fun _ => rfl⟩
  | some rest =>
    obtain ⟨body, -, hbody⟩ := shortestBalanced_of_skipCommentBody hskip
    exact ⟨nofun, fun hnone => absurd hbody.balances (hnone _ hbody.isPrefix)⟩

/-! ### Space -/

theorem CommentTail.shortestBalanced {body : List Char} (h : CommentTail 0 body) :
    ShortestBalanced ('(' :: ':' :: body) ('(' :: ':' :: body) := by
  have hskip := skipCommentBody_append h []
  rw [List.append_nil] at hskip
  obtain ⟨front, hfront, hshortest⟩ := shortestBalanced_of_skipCommentBody hskip
  rw [List.append_nil] at hfront
  rwa [← hfront] at hshortest

theorem Trivia.isSpace {space : List Char} (h : Trivia space) : IsSpace space := by
  induction h with
  | nil => exact ⟨[], rfl, nofun⟩
  | blank c hc _ ih =>
    obtain ⟨pieces, rfl, hpieces⟩ := ih
    exact ⟨[c] :: pieces, rfl, List.forall_mem_cons.2 ⟨.inl ⟨c, hc, rfl⟩, hpieces⟩⟩
  | comment hbody _ ih =>
    obtain ⟨pieces, rfl, hpieces⟩ := ih
    exact ⟨('(' :: ':' :: _) :: pieces, rfl, List.forall_mem_cons.2 ⟨.inr hbody.shortestBalanced, hpieces⟩⟩

/-- Skipping fails only at a comment that has no end, behind space. -/
theorem scanTrivia_faulty {text : List Char} {fault : LexicalFault} {place : List Char}
    (h : scanTrivia true text = .faulty fault place) :
    fault = .unterminated "comment" ∧ ∃ space inner, Trivia space ∧ text = space ++ place ∧
      place = '(' :: ':' :: inner ∧ skipCommentBody 0 inner = none := by
  have hblanks : ∀ c ∈ text.takeWhile isBlank, isBlank c := fun _ => List.mem_takeWhile_imp
  have hsplit : text.takeWhile isBlank ++ text.dropWhile isBlank = text := List.takeWhile_append_dropWhile
  rw [scanTrivia_eq] at h
  split at h
  · rename_i hcomment
    obtain ⟨inner, hinner⟩ := startsComment_iff.1 (Bool.and_eq_true_iff.1 hcomment).2
    rw [hinner] at h hsplit
    split at h
    · rename_i rest hskip
      obtain ⟨body, hbody, rfl⟩ := @commentTail_of_skipCommentBody 0 inner rest hskip
      have hlt : rest.length < text.length := by
        rw [← hsplit]
        simp only [List.length_append, List.length_cons]
        omega
      obtain ⟨rfl, space, inside, hspace, rfl, hplace⟩ := scanTrivia_faulty h
      refine ⟨rfl, text.takeWhile isBlank ++ '(' :: ':' :: (body ++ space), inside,
        .blanks_append hblanks (.comment hbody hspace), ?_, hplace⟩
      exact hsplit.symm.trans (by simp)
    · rename_i hskip
      cases h
      exact ⟨rfl, text.takeWhile isBlank, inner,
        by simpa using Trivia.blanks_append hblanks .nil, hsplit.symm, rfl, hskip⟩
  · cases h
termination_by text.length

/-- A text that begins with an opener is a comment exactly up to the first place where it has been closed as
often as opened, and without such a place it is an open comment. Space in front of a token is skipped as
far as it goes, or up to an open comment: what is skipped is blanks and comments, and what remains begins
with neither. -/
theorem comments_balance_and_space_is_skipped_whole :
    (∀ inner : List Char,
      ((∃ body rest, scanComment ('(' :: ':' :: inner) = .found body rest) ↔
        ∃ front, front <+: '(' :: ':' :: inner ∧ Balances front) ∧
      (∀ body rest, scanComment ('(' :: ':' :: inner) = .found body rest ↔
        ∃ front, '(' :: ':' :: inner = front ++ rest ∧ body = String.ofList front ∧
          ShortestBalanced front ('(' :: ':' :: inner)) ∧
      (scanComment ('(' :: ':' :: inner) = .faulty (.unterminated "comment") ('(' :: ':' :: inner) ↔
        ¬∃ front, front <+: '(' :: ':' :: inner ∧ Balances front)) ∧
    ∀ text : List Char,
      (∃ space rest, scanTrivia true text = .found () rest ∧ text = space ++ rest ∧ IsSpace space ∧
        (∀ c ∈ rest.head?, isBlank c = false) ∧ (∀ inner, rest ≠ '(' :: ':' :: inner) ∧
        scanTrivia true rest = .found () rest) ∨
      ∃ space inner, scanTrivia true text = .faulty (.unterminated "comment") ('(' :: ':' :: inner) ∧
        text = space ++ '(' :: ':' :: inner ∧ IsSpace space ∧
        ¬∃ front, front <+: '(' :: ':' :: inner ∧ Balances front := by
  refine ⟨fun inner => ⟨?_, fun body rest => scanComment_found_iff, ?_⟩, fun text => ?_⟩
  · constructor
    · rintro ⟨body, rest, hfound⟩
      obtain ⟨front, -, -, hfront⟩ := scanComment_found_iff.1 hfound
      exact ⟨front, hfront.isPrefix, hfront.balances⟩
    · rintro ⟨front, hprefix, hbalances⟩
      cases hskip : skipCommentBody 0 inner with
      | none => exact absurd hbalances (not_balances_of_skipCommentBody hskip hprefix)
      | some rest =>
        obtain ⟨body, hinner, hbody⟩ := shortestBalanced_of_skipCommentBody hskip
        exact ⟨_, rest, scanComment_found_iff.2 ⟨_, by rw [hinner]; rfl, rfl, hbody⟩⟩
  · simpa using @scanComment_faulty_iff inner
  · cases hscan : scanTrivia true text with
    | absent => exact absurd hscan (scanTrivia_ne_absent true text)
    | found _ rest =>
      obtain ⟨space, hspace, htext, -⟩ := trivia_of_scanTrivia hscan
      have hsettled := settled_of_scanTrivia hscan
      obtain ⟨hblank, hcomment⟩ := Bool.or_eq_false_iff.1 hsettled
      refine .inl ⟨space, rest, rfl, htext, hspace.isSpace, fun c hc => ?_, ?_, scanTrivia_none hsettled⟩
      · rw [Option.mem_def.1 hc] at hblank
        exact hblank
      · rintro inner rfl
        cases hcomment
    | faulty fault place =>
      obtain ⟨rfl, space, inner, hspace, htext, rfl, hskip⟩ := scanTrivia_faulty hscan
      refine .inr ⟨space, inner, rfl, htext, hspace.isSpace, ?_⟩
      rintro ⟨front, hprefix, hbalances⟩
      exact not_balances_of_skipCommentBody hskip hprefix hbalances

/-- The parenthesis of an opener does not close it, and neither does a colon of its own. -/
example : ¬Balances ['(', ':', ')'] ∧ Balances ['(', ':', ':', ')'] ∧ ¬Balances ['(', ':', '(', ':', ':', ')'] :=
  ⟨fun h => absurd h.even (by decide), ⟨by decide, by decide⟩, fun h => absurd h.even (by decide)⟩

end XQuerySyntax
