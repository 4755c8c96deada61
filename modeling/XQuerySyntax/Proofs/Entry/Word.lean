import XQuerySyntax.Proofs.Rollback
import XQuerySyntax.Proofs.Comparison.Altered

/-! Words in front. A rule whose pattern begins with a word is declined unless this word comes next in
the text, or the text has an open comment in front of it. -/

namespace XQuerySyntax

/-- The text begins with a comment that is not closed. -/
def Unclosed (text : List Char) : Prop := ∃ fault place, scanTrivia true text = .faulty fault place

/-- The word comes next in the text, and `tail` stands behind it. -/
def Opens (word text tail : List Char) : Prop :=
  scanTrivia true text = .found () (word ++ tail) ∧ endsName tail

/-- Letters, digits, underscores and hyphens, without a hyphen at the front. -/
def isPlainWord : List Char → Bool
  | [] => false
  | c :: cs => PatternItem.isWordChar c && cs.all fun d => PatternItem.isWordChar d || d == '-'

theorem Unclosed.startsTrivia {text : List Char} (h : Unclosed text) : startsTrivia true text = true := by
  by_contra hno
  obtain ⟨fault, place, hscan⟩ := h
  rw [scanTrivia_none (by simpa using hno)] at hscan
  cases hscan

/-- What remains behind skipped space does not begin with space. -/
theorem settled_of_scanTrivia {text rest : List Char} (h : scanTrivia true text = .found () rest) :
    startsTrivia true rest = false := by
  rw [scanTrivia_eq, Bool.true_and] at h
  split at h
  · split at h
    · rename_i hcomment inner hskip
      have hlt : inner.length < text.length := by
        have h₁ := length_of_skipCommentBody hskip
        have h₂ : (text.dropWhile isBlank).length ≤ text.length :=
          (List.dropWhile_sublist isBlank).length_le
        simp only [List.length_drop] at h₁
        omega
      exact settled_of_scanTrivia h
    · cases h
  · rename_i hcomment
    cases h
    have hblank : (text.dropWhile isBlank).head?.any isBlank = false := by
      cases hd : (text.dropWhile isBlank).head? with
      | none => rfl
      | some c => simpa [hd] using List.head?_dropWhile_not isBlank text
    rw [startsTrivia, hblank, Bool.false_or, Bool.true_and]
    simpa using hcomment
termination_by text.length

namespace Scan

open PatternItem

variable {m : Matcher} {more : List PatternItem} {afterWord : Bool} {anchor : Option (List Char)}

/-- Either the rest of a word is not there, or what follows decides. -/
theorem items_word_cases (afterWord : Bool) (anchor : Option (List Char)) {word : List Char} (hne : word ≠ [])
    (hfirst : afterWord = true ∨ word.head?.any isWordChar)
    (hword : word.all fun c => isWordChar c || c == '-') (hmore : continuesWord more = false) :
    (∃ m', items (word.map .char ++ more) afterWord anchor m = .ok none m') ∨
      ∃ tail, m.cursor.rest = word ++ tail ∧ endsName tail ∧
        items (word.map .char ++ more) afterWord anchor m = items more true anchor (m.moveTo tail) := by
  induction word generalizing m afterWord with
  | nil => exact (hne rfl).elim
  | cons c word ih =>
    obtain ⟨hc, hall⟩ := Bool.and_eq_true_iff.1 hword
    have hafter : (isWordChar c || (c == '-' && afterWord)) = true := by
      rcases hfirst with rfl | hfirst
      · simpa using hc
      · have : isWordChar c = true := by simpa using hfirst
        rw [this, Bool.true_or]
    by_cases hthere : ∃ text, m.cursor.rest = c :: text
    swap
    · refine .inl ⟨m, ?_⟩
      rw [List.map_cons, List.cons_append, items, bind_ok (char_other fun text h => hthere ⟨text, h⟩)]
      rfl
    obtain ⟨text, htext⟩ := hthere
    have hstep : items ((c :: word).map .char ++ more) afterWord anchor m =
        if !continuesWord (word.map .char ++ more) then
          (wordEnds >>= fun ends => if ends then items (word.map .char ++ more) true anchor
            else pure none) (m.moveTo text)
        else items (word.map .char ++ more) true anchor (m.moveTo text) := by
      rw [List.map_cons, List.cons_append, items, bind_ok (char_cons htext), if_pos rfl, hafter, Bool.true_and]
      split <;> rfl
    cases word with
    | nil =>
      rw [List.map_nil, List.nil_append, hmore, Bool.not_false, if_pos rfl, bind_ok (wordEnds_eq _)] at hstep
      by_cases hends : (!(m.moveTo text).cursor.current?.any isNameChar) = true
      · rw [if_pos hends] at hstep
        exact .inr ⟨text, htext, endsName_of_wordEnds hends, hstep⟩
      · rw [if_neg hends] at hstep
        exact .inl ⟨_, hstep⟩
    | cons d word =>
      have hcontinues : continuesWord ((d :: word).map PatternItem.char ++ more) = true :=
        (Bool.and_eq_true_iff.1 hall).1
      rw [hcontinues, Bool.not_true, if_neg Bool.false_ne_true] at hstep
      rw [hstep]
      rcases @ih (m.moveTo text) true (List.cons_ne_nil _ _) (.inl rfl) hall with
        hno | ⟨tail, hrest, hends, hitems⟩
      · exact .inl hno
      · refine .inr ⟨tail, ?_, hends, hitems⟩
        rw [htext, show text = d :: word ++ tail from hrest]
        rfl

/-- Behind a word either no other word stands apart, or a comment is open in front of it, or what
follows it decides. -/
theorem items_gap_word_cases (anchor : Option (List Char)) {word : List Char} (hword : isPlainWord word) (hmore : continuesWord more = false)
    (hm : m.state.skipsComments = true) :
    (∃ m', items (.gap :: (word.map .char ++ more)) true anchor m = .ok none m') ∨
      Unclosed m.cursor.rest ∨
      ∃ tail, startsTrivia true m.cursor.rest = true ∧ Opens word m.cursor.rest tail ∧
        items (.gap :: (word.map .char ++ more)) true anchor m = items more true anchor (m.moveTo tail) := by
  obtain ⟨c, cs, rfl⟩ : ∃ c cs, word = c :: cs := by
    cases word with
    | nil => cases hword
    | cons c cs => exact ⟨c, cs, rfl⟩
  obtain ⟨hc, hcs⟩ := Bool.and_eq_true_iff.1 hword
  have hstarts : startsWord ((c :: cs).map .char ++ more) = true := hc
  have hall : (c :: cs).all fun d => isWordChar d || d == '-' := by
    rw [List.all_cons, hc, Bool.true_or, Bool.true_and]
    exact hcs
  cases hscan : scanTrivia true m.cursor.rest with
  | absent => exact (scanTrivia_ne_absent _ _ hscan).elim
  | faulty fault place => exact .inr (.inl ⟨fault, place, hscan⟩)
  | found _ text =>
    have hskip : skipTrivia m = .ok () (m.moveTo text) := skipTrivia_found (hm ▸ hscan)
    have hstep : items (.gap :: ((c :: cs).map .char ++ more)) true anchor m =
        if startsTrivia true m.cursor.rest then
          items ((c :: cs).map .char ++ more) true anchor (m.moveTo text)
        else .ok none (m.moveTo text) := by
      rw [items, bind_ok (separated_eq m), hstarts, hm, bind_ok hskip]
      cases startsTrivia true m.cursor.rest <;> rfl
    by_cases hapart : startsTrivia true m.cursor.rest = true
    · rw [if_pos hapart] at hstep
      rw [hstep]
      rcases items_word_cases (m := m.moveTo text) true anchor (List.cons_ne_nil c cs) (.inl rfl) hall
        hmore with hno | ⟨tail, hrest, hends, hitems⟩
      · exact .inl hno
      · obtain rfl : text = c :: cs ++ tail := hrest
        exact .inr (.inr ⟨tail, hapart, ⟨hscan, hends⟩, hitems⟩)
    · rw [if_neg hapart] at hstep
      exact .inl ⟨_, hstep⟩

/-! ### Rules -/

/-- A rule that is not matched is declined. -/
theorem declined_of_answer {r : Rule} (h : (eat r m).answer = .ok false) : Declined r m := by
  unfold Declined
  rw [answer_eat] at h
  by_cases hadmits : m.admits r
  · have hp := pattern_settles r.items m
    rw [if_pos hadmits] at h
    cases hr : pattern r.items m with
    | error d m₁ =>
      rw [hr] at h
      cases h
    | ok matched m₁ =>
      rw [hr] at h hp
      cases h
      obtain rfl : m₁ = { m with captures := [] } := hp
      refine ⟨[], ?_, ?_⟩
      · rw [eat, if_pos hadmits, hr]
      · rw [peek, if_pos hadmits, hr]
        rfl
  · refine ⟨m.captures, ?_, ?_⟩
    · rw [eat, if_neg hadmits]
    · rw [peek, if_neg hadmits]

/-- A rule whose pattern begins with a word is declined unless this word comes next, or a comment is
open in front of it. If the word is there, the rest of the pattern decides. -/
theorem declined_or_opens {r : Rule} {word : List Char} (hitems : r.items = word.map .char ++ more)
    (hword : isPlainWord word) (hmore : continuesWord more = false) (hblanks : m.state.skipsBlanks = true)
    (hcomments : m.state.skipsComments = true) :
    Declined r m ∨ Unclosed m.cursor.rest ∨ ∃ tail, Opens word m.cursor.rest tail ∧
      (m.admits r → (eat r m).answer =
        (items more true none { m.moveTo tail with captures := [] }).answer.map Option.isSome) := by
  by_cases hadmits : m.admits r
  swap
  · refine .inl (declined_of_answer ?_)
    rw [answer_eat, if_neg hadmits]
  have hanswer : (eat r m).answer = ((skipTrivia >>= fun _ => items r.items false none)
      { m with captures := [] }).answer.map Option.isSome := by
    rw [answer_eat, if_pos hadmits, answer_pattern, hblanks]
    rfl
  obtain ⟨c, cs, rfl⟩ : ∃ c cs, word = c :: cs := by
    cases word with
    | nil => cases hword
    | cons c cs => exact ⟨c, cs, rfl⟩
  obtain ⟨hc, hcs⟩ := Bool.and_eq_true_iff.1 hword
  have hall : (c :: cs).all fun d => isWordChar d || d == '-' := by
    rw [List.all_cons, hc, Bool.true_or, Bool.true_and]
    exact hcs
  cases hscan : scanTrivia true m.cursor.rest with
  | absent => exact (scanTrivia_ne_absent _ _ hscan).elim
  | faulty fault place => exact .inr (.inl ⟨fault, place, hscan⟩)
  | found _ text =>
    have hskip : skipTrivia { m with captures := [] } =
        .ok () (Matcher.moveTo { m with captures := [] } text) :=
      skipTrivia_found (m := { m with captures := [] }) (hcomments ▸ hscan)
    rw [bind_ok hskip, hitems] at hanswer
    rcases items_word_cases (m := Matcher.moveTo { m with captures := [] } text) false none
      (List.cons_ne_nil c cs) (.inr hc) hall hmore with
      ⟨m', hno⟩ | ⟨tail, hrest, hends, hitems⟩
    · rw [hno] at hanswer
      exact .inl (declined_of_answer hanswer)
    · obtain rfl : text = c :: cs ++ tail := hrest
      rw [hitems] at hanswer
      exact .inr (.inr ⟨tail, ⟨hscan, hends⟩, fun _ => hanswer⟩)

/-- A rule whose pattern begins with two words is declined unless these come next, one behind the
other, or a comment is open in front of one of them. -/
theorem declined_or_opens_two {r : Rule} {first second : List Char}
    (hitems : r.items = first.map .char ++ PatternItem.gap :: (second.map .char ++ more)) (hfirst : isPlainWord first)
    (hsecond : isPlainWord second) (hmore : continuesWord more = false)
    (hblanks : m.state.skipsBlanks = true) (hcomments : m.state.skipsComments = true) :
    Declined r m ∨ Unclosed m.cursor.rest ∨ ∃ tail, Opens first m.cursor.rest tail ∧
      (Unclosed tail ∨ ∃ tail', startsTrivia true tail = true ∧ Opens second tail tail') := by
  rcases declined_or_opens hitems hfirst rfl hblanks hcomments with hno | hopen | ⟨tail, hopens, hanswer⟩
  · exact .inl hno
  · exact .inr (.inl hopen)
  by_cases hadmits : m.admits r
  swap
  · refine .inl (declined_of_answer ?_)
    rw [answer_eat, if_neg hadmits]
  rcases items_gap_word_cases (m := { m.moveTo tail with captures := [] }) none hsecond hmore
    hcomments with ⟨m', hno⟩ | hopen | ⟨tail', hstarts, hopens', -⟩
  · have hfalse := hanswer hadmits
    rw [hno] at hfalse
    exact .inl (declined_of_answer hfalse)
  · exact .inr (.inr ⟨tail, hopens, .inl hopen⟩)
  · exact .inr (.inr ⟨tail, hopens, .inr ⟨tail', hstarts, hopens'⟩⟩)

end Scan

end XQuerySyntax
