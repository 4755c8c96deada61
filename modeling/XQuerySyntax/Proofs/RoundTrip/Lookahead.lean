import XQuerySyntax.Proofs.RoundTrip.OperatorTree
import XQuerySyntax.Proofs.RoundTrip.Reads

/-! What stands in front of an operand and behind it, as far as the rules that are tried there need to
know. An operand may be followed by an operator of a looser layer, by a bracket or a separator, or by
the end of the text; no rule of its own layer or a tighter one takes any of these. -/

namespace XQuerySyntax

open Glimpse

/-! ### The rules that are tried -/

namespace Layer

open Terminal

/-- The rules that the parser of a layer tries behind an operand. -/
def rules : Layer → List Rule
  | primary => [predicateOpen, dynamicCall, descendantsSeparator, slashSeparator]
  | unary => [castAs, castableAs, treatAs, instanceOf]
  | intersect => [intersectWord, exceptWord]
  | union => [unionWord, unionBar]
  | multiplicative => [multiply, integerDivide, divide, modulo]
  | additive => [plus, minus]
  | range => [toRange, Terminal.ftContains, containsText]
  | comparison =>
    [generalNotEquals, generalLessEqual, nodePrecedes, generalLess, generalGreaterEqual, nodeFollows,
      generalGreater, generalEquals, valueEquals, valueNotEquals, valueLess, valueLessEqual,
      valueGreater, valueGreaterEqual, isSameNode]
  | and => [andWord]
  | or => [orWord]
  | single => []
  | sequence => [Terminal.comma]

end Layer

/-! ### What comes behind an operand -/

namespace Token

/-- The layers tighter than this may stand in front of the token. -/
def looseness : Token → Nat
  | operator op => op.layer.rank
  | toWord => Layer.range.rank
  | comma => Layer.sequence.rank
  | closing | thenWord | elseWord => Layer.sequence.rank + 1
  | _ => 0

end Token

/-- What is known of the text behind an operand if a token of this spelling comes next. -/
def followingView (spelling : String) : List Glimpse :=
  if spelling.toList.all PatternItem.isWordChar then
    [.gap, .word spelling.toList, .gap, .unlike '\x7b']
  else if spelling = ")" ∨ spelling = "," then .gap :: spelling.toList.map .char
  else .gap :: (spelling.toList.map .char ++ [.gap])

/-- The operators. -/
def BinaryOperator.all : List BinaryOperator :=
  [.or, .and, .equals, .notEquals, .lessThan, .lessThanOrEqual, .greaterThan, .greaterThanOrEqual,
    .valueEq, .valueNe, .valueLt, .valueLe, .valueGt, .valueGe, .is, .precedes, .follows, .plus,
    .minus, .multiply, .divide, .integerDivide, .modulo, .union, .intersect, .except]

theorem BinaryOperator.mem_all (op : BinaryOperator) : op ∈ all := by
  cases op <;> decide

/-- The tokens that may come behind an operand. -/
def Token.following : List Token :=
  BinaryOperator.all.map .operator ++ [Token.toWord, .thenWord, .elseWord, .closing, .comma]

theorem Token.operator_mem_following (op : BinaryOperator) : operator op ∈ following :=
  List.mem_append_left _ (List.mem_map_of_mem op.mem_all)

/-- What may come behind an operand, each with a bound on the layers of the operand. -/
def followingViews : List (Nat × List Glimpse) :=
  (Layer.sequence.rank + 1, [.stop]) :: (Layer.sequence.rank + 1, [.gap, .stop]) ::
    (Layer.sequence.rank + 1, [.char '\x7d']) :: Token.following.flatMap fun token =>
      token.spellings.map fun spelling => (token.looseness, followingView spelling)

/-- The layers. -/
def Layer.all : List Layer :=
  [primary, unary, intersect, union, multiplicative, additive, range, comparison, and, or, single,
    sequence]

/-- Behind an operand no rule of its layer or a tighter one takes what may come there. -/
theorem layerRules_decline :
    (followingViews.all fun (bound, view) => Layer.all.all fun layer => decide (bound ≤ layer.rank) ||
      layer.rules.all fun r => Scan.declines .operator r view) = true := by
  rw [Scan.declines_eq]
  rfl

/-- A token may end here: nothing follows, or space does, or the end of an enclosed expression. -/
def endsToken (text : List Char) : Prop := ∀ c ∈ text.head?, isBlank c ∨ c = '(' ∨ c = '\x7d'

namespace endsToken

variable {text : List Char}

theorem of_startsTrivia (h : startsTrivia true text) : endsToken text := by
  obtain ⟨c, rest, rfl, hc⟩ := head_of_startsTrivia h
  rintro _ ⟨⟩
  exact hc.imp_right .inl

theorem endsName (h : endsToken text) : endsName text := by
  intro c hc
  rcases h c hc with hblank | rfl | rfl
  · simp only [isBlank, Bool.or_eq_true, beq_iff_eq] at hblank
    rcases hblank with ((rfl | rfl) | rfl) | rfl <;> decide
  · decide
  · decide

theorem ne (h : endsToken text) {c : Char} (hblank : isBlank c = false) (hmark : c ≠ '(' ∧ c ≠ '\x7d') :
    ∀ d ∈ text.head?, d ≠ c := by
  rintro d hd rfl
  rcases h d hd with hb | rfl | rfl
  · rw [hblank] at hb
    cases hb
  · exact hmark.1 rfl
  · exact hmark.2 rfl

theorem ne_quotes (h : endsToken text) : ∀ c ∈ text.head?, c ≠ '"' ∧ c ≠ '\'' :=
  fun c hc => ⟨h.ne (by decide) (by decide) c hc, h.ne (by decide) (by decide) c hc⟩

theorem endsInteger (h : endsToken text) : endsInteger text := by
  intro c hc
  have hname : isNameChar c = false := h.endsName c hc
  refine ⟨?_, h.ne (by decide) (by decide) c hc, ?_⟩
  · refine Bool.eq_false_iff.2 fun hd => ?_
    rw [isNameChar_of_isDigit hd] at hname
    cases hname
  · refine Bool.eq_false_iff.2 fun hs => ?_
    rw [isNameChar_of_isNameStart hs] at hname
    cases hname

end endsToken

/-- An operand may end here whose layer is tighter than the bound. -/
def Behind (bound : Nat) (text : List Char) : Prop :=
  ∃ view, (bound, view) ∈ followingViews ∧ Shows true view text

/-! ### Tokens in a text -/

variable {token : Token} {tokens tokens' : List Token} {text rest : List Char} {bound : Nat}

theorem Token.Spells.spelling {chars : List Char} (h : token.Spells chars)
    (hne : token.spellings ≠ []) : ∃ spelling ∈ token.spellings, chars = spelling.toList := by
  cases token with
  | varRef | integer | string | name | localName => exact absurd rfl hne
  | _ => exact h

theorem Token.spells_of_mem {spelling : String} (h : spelling ∈ token.spellings) :
    token.Spells spelling.toList := by
  cases token with
  | varRef | integer | string | name | localName => cases h
  | _ => exact ⟨spelling, h, rfl⟩

theorem Token.spellings_ne_nil (h : token ∈ Token.following) : token.spellings ≠ [] := by
  simp only [following, List.mem_append, List.mem_map, List.mem_cons, List.not_mem_nil,
    or_false] at h
  rcases h with ⟨op, -, rfl⟩ | rfl | rfl | rfl | rfl | rfl
  · cases op <;> exact List.cons_ne_nil _ _
  all_goals exact List.cons_ne_nil _ _

theorem Spread.append (h : Spread (tokens ++ tokens') text rest) :
    ∃ mid, Spread tokens text mid ∧ Spread tokens' mid rest := by
  induction tokens generalizing text with
  | nil => exact ⟨text, .nil text, h⟩
  | cons token tokens ih =>
    cases h with
    | cons hspace hne hchars htext =>
      obtain ⟨mid, h₁, h₂⟩ := ih htext
      exact ⟨mid, .cons hspace hne hchars h₁, h₂⟩

theorem Written.append (h : Written (tokens ++ tokens') text rest) (hne : tokens ≠ []) :
    ∃ mid, Written tokens text mid ∧ Spread tokens' mid rest := by
  cases tokens with
  | nil => exact absurd rfl hne
  | cons token tokens =>
    obtain ⟨space, chars, text', rfl, hspace, hchars, htext⟩ := h
    obtain ⟨mid, h₁, h₂⟩ := htext.append
    exact ⟨mid, ⟨space, chars, text', rfl, hspace, hchars, h₁⟩, h₂⟩

theorem Spread.written (h : Spread tokens text rest) (hne : tokens ≠ []) :
    Written tokens text rest := by
  cases h with
  | nil => exact absurd rfl hne
  | cons hspace _ hchars htext => exact ⟨_, _, _, rfl, hspace, hchars, htext⟩

theorem Spread.ends (h : Spread tokens text rest) (hrest : endsToken rest) :
    endsToken text := by
  cases h with
  | nil => exact hrest
  | cons hspace hne => exact .of_startsTrivia (hspace.startsTrivia hne _)

theorem Spread.length_le (h : Spread tokens text rest) : rest.length ≤ text.length := by
  induction h with
  | nil => exact Nat.le_refl _
  | cons _ _ _ _ ih =>
    simp only [List.length_append]
    omega

theorem Spread.length_lt (h : Spread (token :: tokens) text rest) : rest.length < text.length := by
  cases h with
  | cons _ hne _ htext =>
    have hspace := List.length_pos_iff.2 hne
    have hle := htext.length_le
    simp only [List.length_append]
    omega

theorem Written.length_le (h : Written tokens text rest) : rest.length ≤ text.length := by
  cases tokens with
  | nil => exact h.elim
  | cons token tokens =>
    obtain ⟨space, chars, mid, rfl, -, -, htext⟩ := h
    have hle := htext.length_le
    simp only [List.length_append]
    omega

theorem shows_chars {view : List Glimpse} (chars : List Char) (h : Shows true view text) :
    Shows true (chars.map .char ++ view) (chars ++ text) := by
  induction chars with
  | nil => exact h
  | cons c chars ih => exact ⟨chars ++ text, rfl, ih⟩

/-- What is known of a token with a fixed spelling. -/
def spellingView (spelling : String) : List Glimpse :=
  spelling.toList.map .char ++ [Glimpse.unlike ':']

/-- The tokens with fixed spellings. -/
def Token.fixed : List Token :=
  following ++ [Token.sign .plus, .sign .minus, .ifWord, .opening]

theorem Token.mem_fixed {spelling : String} (h : spelling ∈ token.spellings) : token ∈ fixed := by
  cases token with
  | operator op => exact List.mem_append_left _ (operator_mem_following op)
  | sign op => cases op <;> simp [fixed]
  | varRef | integer | string | name | localName => cases h
  | _ => simp [fixed, following]

/-- A token with a fixed spelling is no space, and begins with no brace. -/
theorem spellingView_settled {spelling : String} (h : spelling ∈ token.spellings) :
    isSettled (spellingView spelling) ∧ next? '\x7b' (spellingView spelling) = none := by
  have hall : ∀ token ∈ Token.fixed, ∀ spelling ∈ token.spellings,
      isSettled (spellingView spelling) ∧ next? '\x7b' (spellingView spelling) = none := by
    decide
  exact hall token (Token.mem_fixed h) spelling h

/-- No token is space, and none begins with a brace. -/
theorem Token.Spells.settled {chars : List Char} (h : token.Spells chars) (hrest : endsToken rest) :
    startsTrivia true (chars ++ rest) = false ∧ ∀ c ∈ (chars ++ rest).head?, c ≠ '\x7b' := by
  have of_view (view : List Glimpse) (hs : Shows true view (chars ++ rest)) (hset : isSettled view)
      (hbrace : next? '\x7b' view = none) :
      startsTrivia true (chars ++ rest) = false ∧ ∀ c ∈ (chars ++ rest).head?, c ≠ '\x7b' := by
    refine ⟨hs.settled hset, ?_⟩
    rintro c hc rfl
    obtain ⟨text, htext⟩ := List.head?_eq_some_iff.1 hc
    rw [htext] at hs
    obtain ⟨_, hnext, -⟩ := hs.next
    rw [hnext] at hbrace
    cases hbrace
  have of_fixed (hfixed : ∃ spelling ∈ token.spellings, chars = spelling.toList) :
      startsTrivia true (chars ++ rest) = false ∧ ∀ c ∈ (chars ++ rest).head?, c ≠ '\x7b' := by
    obtain ⟨spelling, hmem, rfl⟩ := hfixed
    have hcolon : Shows true [.unlike ':'] rest := hrest.ne (by decide) (by decide)
    obtain ⟨hset, hbrace⟩ := spellingView_settled hmem
    exact of_view _ (shows_chars _ hcolon) hset hbrace
  cases token with
  | varRef n =>
    obtain ⟨space, -, rfl⟩ := h
    exact of_view ([.char '$']) ⟨_, rfl, trivial⟩ rfl rfl
  | integer value =>
    obtain ⟨hne, hdigits, -⟩ := h
    cases chars with
    | nil => exact absurd rfl hne
    | cons c chars =>
      have hc : c.isDigit := hdigits c List.mem_cons_self
      exact of_view ([.digit]) ⟨c, chars ++ rest, rfl, hc, trivial⟩ rfl rfl
  | string value =>
    obtain ⟨quote, body, hquote, -, rfl⟩ := h
    rcases hquote with rfl | rfl
    · exact of_view ([.char '"']) ⟨_, rfl, trivial⟩ rfl rfl
    · exact of_view ([.char '\'']) ⟨_, rfl, trivial⟩ rfl rfl
  | name n =>
    obtain rfl := h
    exact of_view ([.name]) ⟨n.chars, rest, rfl, n.isName, hrest.endsName, trivial⟩ rfl
      (by decide)
  | localName n =>
    obtain rfl := h
    have hview : Shows true ("local:".toList.map .char) ("local:".toList ++ n.chars ++ rest) := by
      rw [List.append_assoc, ← List.append_nil ("local:".toList.map Glimpse.char)]
      exact shows_chars _ trivial
    exact of_view _ hview (by decide) (by decide)
  | _ => exact of_fixed h

theorem SimpleName.settled (n : SimpleName) (hrest : endsToken rest) :
    startsTrivia true (n.chars ++ rest) = false := by
  have hchars : (Token.name n).Spells n.chars := rfl
  exact (hchars.settled hrest).1

/-- Behind a token that is not the last there is space, and then no brace. -/
theorem Spread.shows_gap (h : Spread (token :: tokens) text rest) (hrest : endsToken rest) :
    Shows true [.gap, .unlike '\x7b'] text := by
  cases h with
  | @cons _ _ space chars mid _ hspace hne hchars htext =>
    obtain ⟨hset, hbrace⟩ := hchars.settled (htext.ends hrest)
    exact ⟨chars ++ mid, hspace.startsTrivia hne _, scanTrivia_append hspace hset, hbrace⟩

/-- An enclosed expression ends at its brace. -/
theorem behind_brace (text : List Char) : Behind (Layer.sequence.rank + 1) ('\x7d' :: text) := by
  refine ⟨[.char '\x7d'], ?_, text, rfl, trivial⟩
  exact List.mem_cons_of_mem _ (List.mem_cons_of_mem _ List.mem_cons_self)

theorem behind_space {space : List Char} (h : Trivia space) :
    Behind (Layer.sequence.rank + 1) space := by
  by_cases hne : space = []
  · refine ⟨[.stop], ?_, hne⟩
    exact List.mem_cons_self
  · refine ⟨[.gap, .stop], List.mem_cons_of_mem _ List.mem_cons_self, [], ?_⟩
    have hstarts := h.startsTrivia hne []
    have hscan : scanTrivia true (space ++ []) = .found () [] := scanTrivia_append h rfl
    rw [List.append_nil] at hstarts hscan
    exact ⟨hstarts, hscan, rfl⟩

theorem isNameChar_of_isWordChar {c : Char} (h : PatternItem.isWordChar c) : isNameChar c := by
  simp only [PatternItem.isWordChar, Char.isAlphanum, Bool.or_eq_true] at h
  unfold isNameChar Text.isAlphabetic Text.isNumeric
  rcases h with (h | h) | h <;> simp [h]

/-- What is seen of a token behind an operand: its spelling, and that it goes on with a token that is
no brace, unless the token is one that may be the last. -/
theorem shows_following {spelling : String} {space mid : List Char} (hmem : spelling ∈ token.spellings)
    (hspace : Trivia space) (hne : space ≠ []) (htext : Spread tokens mid rest) (hrest : endsToken rest)
    (hlast : tokens ≠ [] ∨ spelling = ")" ∨ spelling = ",") :
    Shows true (followingView spelling) (space ++ (spelling.toList ++ mid)) := by
  have hchars : token.Spells spelling.toList := Token.spells_of_mem hmem
  have hends : endsToken mid := htext.ends hrest
  have hset := (hchars.settled hends).1
  have hstarts := hspace.startsTrivia hne (spelling.toList ++ mid)
  have hscan := scanTrivia_append hspace hset
  have hgap (hmark : ¬(spelling = ")" ∨ spelling = ",")) :
      Shows true [.gap, .unlike '\x7b'] mid := by
    have htokens : tokens ≠ [] := hlast.resolve_right hmark
    obtain ⟨token', tokens', rfl⟩ := List.exists_cons_of_ne_nil htokens
    exact htext.shows_gap hrest
  unfold followingView
  split
  · rename_i hword
    -- A word is no mark, and no name character goes on with it.
    have hmark : ¬(spelling = ")" ∨ spelling = ",") := by
      rintro (rfl | rfl) <;> exact absurd hword (by decide)
    have hname : spelling.toList.all isNameChar := by
      rw [List.all_eq_true] at hword ⊢
      intro c hc
      exact isNameChar_of_isWordChar (hword c hc)
    exact ⟨_, hstarts, hscan, mid, rfl, hname, hends.endsName, hgap hmark⟩
  · split
    · refine ⟨_, hstarts, hscan, ?_⟩
      rw [← List.append_nil (spelling.toList.map Glimpse.char)]
      exact shows_chars _ trivial
    · rename_i hmark
      obtain ⟨mid', hstarts', hscan', -⟩ := hgap hmark
      exact ⟨_, hstarts, hscan, shows_chars _ ⟨mid', hstarts', hscan', trivial⟩⟩

/-- Behind an operand comes a token that is followed by another, or that ends something. -/
theorem Spread.behind (h : Spread (token :: tokens) text rest) (htoken : token ∈ Token.following)
    (hrest : endsToken rest)
    (hlast : tokens ≠ [] ∨ ∀ spelling ∈ token.spellings, spelling = ")" ∨ spelling = ",") :
    Behind token.looseness text := by
  cases h with
  | @cons _ _ space chars mid _ hspace hne hchars htext =>
    obtain ⟨spelling, hmem, rfl⟩ := hchars.spelling (Token.spellings_ne_nil htoken)
    have hview : (token.looseness, followingView spelling) ∈ followingViews := by
      refine List.mem_cons_of_mem _ (List.mem_cons_of_mem _ (List.mem_cons_of_mem _ ?_))
      exact List.mem_flatMap.2 ⟨token, htoken, List.mem_map_of_mem hmem⟩
    have hlast' : tokens ≠ [] ∨ spelling = ")" ∨ spelling = "," :=
      hlast.imp_right fun h => h spelling hmem
    exact ⟨_, hview, shows_following hmem hspace hne htext hrest hlast'⟩

theorem followingViews_end :
    ∀ p ∈ followingViews, p.2.head? = some .gap ∨ p.2.head? = some .stop ∨
      p.2.head? = some (.char '\x7d') := by
  decide

theorem Behind.ends (h : Behind bound text) : endsToken text := by
  obtain ⟨view, hmem, hs⟩ := h
  obtain hgap | hstop | hbrace := followingViews_end _ hmem
  · obtain ⟨view', rfl⟩ := List.head?_eq_some_iff.1 hgap
    obtain ⟨_, hstarts, -⟩ := hs
    exact .of_startsTrivia hstarts
  · obtain ⟨view', rfl⟩ := List.head?_eq_some_iff.1 hstop
    obtain rfl := hs
    rintro _ ⟨⟩
  · obtain ⟨view', rfl⟩ := List.head?_eq_some_iff.1 hbrace
    obtain ⟨text, rfl, -⟩ := hs
    rintro _ ⟨⟩
    exact .inr (.inr rfl)

theorem declines_of_view {state : LexicalState} {r : Rule} {view : List Glimpse}
    (h : Scan.declines state r view) (hs : Shows state.skipsComments view text) :
    Parser.Declines state text r := by
  rintro m rfl rfl
  exact Scan.declined h hs

theorem Layer.mem_all (layer : Layer) : layer ∈ all := by
  cases layer <;> decide

theorem Behind.declines (h : Behind bound text) {layer : Layer} (hlayer : layer.rank < bound) :
    ∀ r ∈ layer.rules, Parser.Declines .operator text r := by
  obtain ⟨view, hmem, hs⟩ := h
  have hrules := List.all_eq_true.1 (List.all_eq_true.1 layerRules_decline _ hmem) layer layer.mem_all
  rw [decide_eq_false (Nat.not_le.2 hlayer), Bool.false_or] at hrules
  exact fun r hr => declines_of_view (List.all_eq_true.1 hrules r hr) hs

end XQuerySyntax
