import XQuerySyntax.Proofs.RoundTrip.ClausePhrase

/-! Full-text selections as they are written. Selections are joined by three connectives, each of which may
join any number of them; what binds no more tightly than its place allows stands in parentheses. Selections
are read level by level, from words to disjunctions, up to what may come behind a selection of the level. -/

namespace XQuerySyntax

open XQuerySyntax.Parser Glimpse

/-! ### Trees -/

/-- What joins selections. -/
inductive FtConnective where
  | mildNot
  | and
  | or
  deriving DecidableEq

namespace FtConnective

/-- The level of a selection that the connective joins, above that of words and that of a negation. -/
def level : FtConnective → Nat
  | mildNot => 2
  | and => 3
  | or => 4

/-- The connective as it is written. -/
def spelling : FtConnective → List String
  | mildNot => ["not", "in"]
  | and => ["ftand"]
  | or => ["ftor"]

/-- The rule of the connective. -/
def rule : FtConnective → Rule
  | mildNot => Terminal.notIn
  | and => Terminal.ftAnd
  | or => Terminal.ftOr

/-- The selection that joins others. -/
def join : FtConnective → List (FtSelection Expr) → FtSelection Expr
  | mildNot => .mildNot
  | and => .and
  | or => .or

/-- The connectives. -/
def all : List FtConnective := [mildNot, and, or]

theorem mem_all (c : FtConnective) : c ∈ all := by cases c <;> decide

theorem level_bounds (c : FtConnective) : 2 ≤ c.level ∧ c.level ≤ 4 := by cases c <;> decide

/-- The connective is written with the words of its rule. -/
theorem rule_spelled (c : FtConnective) : ∃ first more, c.spelling = first :: more ∧
    c.rule.isPhrase .operator first more [] ∧ c.rule.extension = .fullText ∧
      c.rule.next = .goto .expression := by
  cases c <;> exact ⟨_, _, rfl, rfl, rfl, rfl⟩

end FtConnective

/-- Selections of words that are written out, with the mode of the words where it is written too. A
connective joins at least two selections. -/
inductive FtTree where
  | words (text : String) (mode : Option FtAnyAll)
  | not (operand : FtTree)
  | chain (c : FtConnective) (first second : FtTree) (more : List FtTree)

namespace FtTree

/-- How loosely the tree is joined: words are of level zero, and a negation of level one. -/
def level : FtTree → Nat
  | words .. => 0
  | not _ => 1
  | chain c .. => c.level

mutual

/-- The selection that the tree stands for: words are matched in any way unless a mode is written. -/
def selection : FtTree → FtSelection Expr
  | words text mode => .words text (mode.getD .any) none
  | not t => .not t.selection
  | chain c first second more => c.join (first.selection :: second.selection :: selections more)

/-- The selections that the trees stand for. -/
def selections : List FtTree → List (FtSelection Expr)
  | [] => []
  | t :: ts => t.selection :: selections ts

end

end FtTree

/-! ### Printing -/

/-- A mode as it is written. -/
def FtAnyAll.spelling : FtAnyAll → List String
  | any => ["any"]
  | anyWord => ["any", "word"]
  | all => ["all"]
  | allWords => ["all", "words"]
  | phrase => ["phrase"]

/-- Pieces in parentheses, where they are needed. -/
def groupedPieces (needed : Bool) (pieces : List Piece) : List Piece :=
  if needed then .mark "(" :: (pieces ++ [Piece.mark ")"]) else pieces

namespace FtTree

mutual

/-- A tree as it is written. An operand stands in parentheses exactly if it does not bind more tightly than
what it is an operand of. -/
def pieces : FtTree → List Piece
  | words text mode => .string text :: marks (mode.elim [] FtAnyAll.spelling)
  | not t => .mark "ftnot" :: groupedPieces (1 ≤ t.level) t.pieces
  | chain c first second more =>
    groupedPieces (c.level ≤ first.level) first.pieces ++
      (marks c.spelling ++ (groupedPieces (c.level ≤ second.level) second.pieces ++ furtherPieces c more))

/-- Operands with the connective in front of each. -/
def furtherPieces (c : FtConnective) : List FtTree → List Piece
  | [] => []
  | t :: ts => marks c.spelling ++ (groupedPieces (c.level ≤ t.level) t.pieces ++ furtherPieces c ts)

end

mutual

/-- The largest number of parentheses open at a time. -/
def opens : FtTree → Nat
  | words .. => 0
  | not t => t.opens + (1 ≤ t.level : Bool).toNat
  | chain c first second more =>
    max (first.opens + (c.level ≤ first.level : Bool).toNat)
      (max (second.opens + (c.level ≤ second.level : Bool).toNat) (opensOfAll c more))

/-- The largest number of parentheses open at a time in the operands. -/
def opensOfAll (c : FtConnective) : List FtTree → Nat
  | [] => 0
  | t :: ts => max (t.opens + (c.level ≤ t.level : Bool).toNat) (opensOfAll c ts)

end

/-- The tree as an operand of what is of the level. -/
def operandPieces (level : Nat) (t : FtTree) : List Piece := groupedPieces (level ≤ t.level) t.pieces

/-- The largest number of parentheses open at a time in an operand of what is of the level. -/
def opensUnder (level : Nat) (t : FtTree) : Nat := t.opens + (level ≤ t.level : Bool).toNat

theorem pieces_ne_nil (t : FtTree) : t.pieces ≠ [] := by
  match t with
  | words .. | not _ => exact List.cons_ne_nil _ _
  | chain c first .. =>
    have hfirst := first.pieces_ne_nil
    have hgroup : groupedPieces (c.level ≤ first.level) first.pieces ≠ [] := by
      unfold groupedPieces
      split
      · exact List.cons_ne_nil _ _
      · exact hfirst
    rw [pieces]
    exact List.append_ne_nil_of_left_ne_nil hgroup _

theorem operandPieces_ne_nil (level : Nat) (t : FtTree) : t.operandPieces level ≠ [] := by
  unfold operandPieces groupedPieces
  split
  · exact List.cons_ne_nil _ _
  · exact t.pieces_ne_nil

theorem level_le_four (t : FtTree) : t.level ≤ 4 := by
  cases t with
  | words | not => exact Nat.le_of_ble_eq_true rfl
  | chain c => exact c.level_bounds.2

end FtTree

/-! ### What comes behind a selection -/

/-- The rules that are tried behind words and parentheses. -/
def ftBehindRules : List Rule :=
  [Terminal.anyWordMode, Terminal.anyMode, Terminal.allWordsMode, Terminal.allMode, Terminal.phraseMode,
    Terminal.occurs, Terminal.usingOption, Terminal.weightOpen]

/-- The rules of conditions on positions, which are tried behind a whole selection. -/
def ftFilterRules : List Rule :=
  [Terminal.ftOrdered, Terminal.ftWindow, Terminal.distance, Terminal.sameUnit, Terminal.differentUnit,
    Terminal.atStart, Terminal.atEnd, Terminal.entireContent]

/-- What may come behind a selection, each with a bound on the level of the selection. -/
def ftFollowing : List (Nat × List Glimpse) :=
  [(5, [Glimpse.stop]), (5, [.gap, .stop]), (5, [.gap, .char ')'])] ++
    FtConnective.all.map fun c => (c.level, .gap :: Piece.views [] (marks (c.spelling.take 1)))

/-- A selection whose level is below the bound may end here. -/
def EndsSelection (bound : Nat) (text : List Char) : Prop :=
  ∃ view, (bound, view) ∈ ftFollowing ∧ Shows true view text

theorem ftRules_decline :
    (ftFollowing.all fun (bound, view) =>
      (ftBehindRules.all fun r => Scan.declines .operator r view) &&
      (FtConnective.all.all fun c => decide (bound ≤ c.level) || Scan.declines .operator c.rule view) &&
      (bound != 5 ||
        (Terminal.withoutContent :: ftFilterRules).all fun r => Scan.declines .operator r view)) = true := by
  rw [Scan.declines_eq]
  rfl

theorem ftFollowing_gap : ∀ p ∈ ftFollowing, p.2.head? = some .gap ∨ p.2.head? = some .stop := by
  decide

namespace EndsSelection

variable {bound : Nat} {text rest : List Char}

theorem of_space (h : Trivia text) : EndsSelection 5 text := by
  by_cases hne : text = []
  · exact ⟨[.stop], by simp [ftFollowing], hne⟩
  · refine ⟨[.gap, .stop], by simp [ftFollowing], [], ?_⟩
    have hstarts := h.startsTrivia hne []
    have hscan : scanTrivia true (text ++ []) = .found () [] := scanTrivia_append h rfl
    rw [List.append_nil] at hstarts hscan
    exact ⟨hstarts, hscan, rfl⟩

theorem of_closing (h : Spaced [.mark ")"] text rest) (hends : endsToken rest) :
    EndsSelection 5 text := by
  have hnone : Shows true [] rest := trivial
  exact ⟨[.gap, .char ')'], by decide, h.shows hends hnone⟩

theorem of_connective {c : FtConnective} {pieces : List Piece}
    (h : Spaced (marks c.spelling ++ pieces) text rest) (hends : endsToken rest) :
    EndsSelection c.level text := by
  obtain ⟨first, more, hspelling, -⟩ := c.rule_spelled
  have hsplit : marks c.spelling ++ pieces = marks (c.spelling.take 1) ++ (marks more ++ pieces) := by
    rw [hspelling]
    rfl
  rw [hsplit] at h
  obtain ⟨mid, hfirst, hmid⟩ := h.append
  have hnone : Shows true [] mid := trivial
  refine ⟨.gap :: Piece.views [] (marks (c.spelling.take 1)), ?_, ?_⟩
  · exact List.mem_append_right _ (List.mem_map_of_mem c.mem_all)
  · rw [hspelling] at hfirst ⊢
    exact hfirst.shows (hmid.ends hends) hnone

variable (h : EndsSelection bound text)

include h

theorem ends : endsToken text := by
  obtain ⟨view, hmem, hs⟩ := h
  obtain hgap | hstop := ftFollowing_gap _ hmem
  · obtain ⟨view', rfl⟩ := List.head?_eq_some_iff.1 hgap
    obtain ⟨_, hstarts, -⟩ := hs
    exact .of_startsTrivia hstarts
  · obtain ⟨view', rfl⟩ := List.head?_eq_some_iff.1 hstop
    obtain rfl := hs
    rintro _ ⟨⟩

theorem declines_behind : ∀ r ∈ ftBehindRules, Declines .operator text r := by
  obtain ⟨view, hmem, hs⟩ := h
  have hrules := List.all_eq_true.1 ftRules_decline _ hmem
  simp only [Bool.and_eq_true] at hrules
  exact fun r hr => declines_of_view (List.all_eq_true.1 hrules.1.1 r hr) hs

theorem declines_connective {c : FtConnective} (hc : c.level < bound) : Declines .operator text c.rule := by
  obtain ⟨view, hmem, hs⟩ := h
  have hrules := List.all_eq_true.1 ftRules_decline _ hmem
  simp only [Bool.and_eq_true] at hrules
  have hrule := List.all_eq_true.1 hrules.1.2 c c.mem_all
  rw [decide_eq_false (Nat.not_le.2 hc), Bool.false_or] at hrule
  exact declines_of_view hrule hs

theorem declines_filters (hbound : bound = 5) :
    ∀ r ∈ Terminal.withoutContent :: ftFilterRules, Declines .operator text r := by
  obtain ⟨view, hmem, hs⟩ := h
  have hrules := List.all_eq_true.1 ftRules_decline _ hmem
  simp only [Bool.and_eq_true, hbound, bne_self_eq_false, Bool.false_or] at hrules
  exact fun r hr => declines_of_view (List.all_eq_true.1 hrules.2 r hr) hs

end EndsSelection

/-! ### Reading -/

open Grammar

/-- The parser of the selections of a level. -/
def ftLevel (single additive : Parser Expr) (selection : Parser (FtSelection Expr)) :
    Nat → Parser (FtSelection Expr)
  | 0 => ftPrimaryWithOptions single additive selection
  | 1 => ftUnaryNot single additive selection
  | 2 => ftMildNot single additive selection
  | 3 => ftAnd single additive selection
  | _ => ftOr single additive selection

/-- The parser reads the pieces as the selection wherever they are written, up to what may come behind a
selection of the level. -/
def ReadsSelection (f : Frame) (level : Nat) (pieces : List Piece) (p : Parser (FtSelection Expr))
    (s : FtSelection Expr) : Prop :=
  ∀ (saved : List LexicalState) (text rest : List Char) (bound : Nat), text.length ≤ f.size →
    Begun pieces text rest → EndsSelection bound rest → level < bound →
      Reads f (.before saved text) p (fun a => a = s) (.behind saved rest)

/-- What words and parentheses begin with. -/
def ftPrimaryViews : List (List Glimpse) := stringViews ++ [parenView]

/-- The rules that are tried in front of words and parentheses. -/
theorem ftPrimaryRules_decline :
    ([Terminal.pragmaOpen, Terminal.ftNot].all fun r =>
      ftPrimaryViews.all (Scan.declines .expression r)) = true := by
  rw [Scan.declines_eq]
  rfl

theorem ftGroupOpen_declines_strings :
    ([Terminal.ftGroupOpen].all fun r => stringViews.all (Scan.declines .expression r)) = true := by
  rw [Scan.declines_eq]
  rfl

variable {f : Frame} {saved : List LexicalState} {text rest : List Char} {bound n level : Nat}
  {single additive : Parser Expr} {selection : Parser (FtSelection Expr)} {pieces : List Piece}
  {s : FtSelection Expr} {c : FtConnective}

theorem Begun.begins_string {value : String} (h : Begun (.string value :: pieces) text rest) :
    Begins stringViews text := by
  obtain ⟨space, chars, mid, rfl, hspace, hchars, hmid⟩ := h
  obtain ⟨quote, hquote, hs⟩ : ∃ quote, (quote = '"' ∨ quote = '\'') ∧
      Shows true [.char quote] (chars ++ mid) := Piece.shows_quote hchars
  have hview : [.char quote] ∈ stringViews := by
    rcases hquote with rfl | rfl
    · exact List.mem_cons_self
    · exact List.mem_cons_of_mem _ List.mem_cons_self
  exact begins_token hspace hview hs

/-- Behind a piece that is not the last there is space. -/
theorem Begun.begins_spaced {piece : Piece} (h : Begun (piece :: pieces) text rest) (hne : pieces ≠ [])
    (hends : endsToken rest) : Begins [Piece.views [.gap] [piece]] text := by
  have hsplit : Begun ([piece] ++ pieces) text rest := h
  obtain ⟨mid, hfirst, hmid⟩ := hsplit.append (List.cons_ne_nil _ _)
  obtain ⟨next, pieces, rfl⟩ := List.exists_cons_of_ne_nil hne
  have hnone : Shows true [] rest := trivial
  obtain ⟨inside, hstarts, hscan, -⟩ := hmid.shows hends hnone
  have hgap : Shows true [.gap] mid := ⟨inside, hstarts, hscan, trivial⟩
  exact hfirst.begins (hmid.ends hends) hgap

theorem Begun.begins_group (h : Begun (.mark "(" :: pieces) text rest) (hne : pieces ≠ [])
    (hends : endsToken rest) : Begins [parenView] text := h.begins_spaced hne hends

/-! ### Words -/

/-- The ways in which words are matched, each with its rule, in the order in which they are tried. -/
def ftModeRules : List (Rule × FtAnyAll) :=
  [(Terminal.anyWordMode, .anyWord), (Terminal.anyMode, .any), (Terminal.allWordsMode, .allWords),
    (Terminal.allMode, .all), (Terminal.phraseMode, .phrase)]

/-- A mode is taken by its rule, and by none that is tried before. -/
theorem FtAnyAll.rule_found (mode : FtAnyAll) : ∃ before, ∃ r : Rule, ∃ after first more,
    ftModeRules = before ++ (r, mode) :: after ∧ mode.spelling = first :: more ∧
      r.isPhrase .operator first more [] ∧ (r.extension = .fullText ∧ r.next = .stay) ∧
        (before.all fun o => ftFollowing.all fun p =>
          Scan.declines .operator o.1 (.gap :: Piece.views p.2 (marks mode.spelling))) = true := by
  cases mode with
  | anyWord => exact ⟨[], _, _, _, _, rfl, rfl, rfl, ⟨rfl, rfl⟩, rfl⟩
  | any => exact ⟨ftModeRules.take 1, _, _, _, _, rfl, rfl, rfl, ⟨rfl, rfl⟩, rfl⟩
  | allWords => exact ⟨ftModeRules.take 2, _, _, _, _, rfl, rfl, rfl, ⟨rfl, rfl⟩, rfl⟩
  | all => exact ⟨ftModeRules.take 3, _, _, _, _, rfl, rfl, rfl, ⟨rfl, rfl⟩, rfl⟩
  | phrase => exact ⟨ftModeRules.take 4, _, _, _, _, rfl, rfl, rfl, ⟨rfl, rfl⟩, rfl⟩

theorem reads_ftMode (hfull : f.extensions.fullText) {mode : Option FtAnyAll}
    (h : Spaced (marks (mode.elim [] FtAnyAll.spelling)) text rest) (hrest : EndsSelection bound rest) :
    Reads f (.behind saved text) ftAnyAll (fun m => m = mode.getD .any) (.behind saved rest) := by
  have of_found (h : Reads f (.behind saved text) (eatFirst ftModeRules) (fun m => m = mode)
      (.behind saved rest)) :
      Reads f (.behind saved text) ftAnyAll (fun m => m = mode.getD .any) (.behind saved rest) := by
    refine reads_bind h fun m hm => ?_
    rw [hm]
    exact reads_pure rfl
  apply of_found
  cases mode with
  | none =>
    cases h
    refine reads_eatFirst_declined fun o ho => ?_
    have hmem : o.1 ∈ ftModeRules.map Prod.fst := List.mem_map_of_mem ho
    exact hrest.declines_behind o.1 (List.mem_append_left _ hmem)
  | some mode =>
    obtain ⟨before, r, after, first, more, hrules, hspelling, hr, ⟨hext, hstay⟩, hbefore⟩ :=
      mode.rule_found
    have hdecline : ∀ o ∈ before, Declines .operator text o.1 := by
      intro o ho
      obtain ⟨view, hmem, hs⟩ := hrest
      have hview := List.all_eq_true.1 (List.all_eq_true.1 hbefore o ho) _ hmem
      rw [Option.elim_some, hspelling] at h
      rw [hspelling] at hview
      exact declines_of_view hview (h.shows (EndsSelection.ends ⟨view, hmem, hs⟩) hs)
    have hwords : Begun (marks (first :: more) ++ []) text rest := by
      rw [Option.elim_some, hspelling] at h
      rw [List.append_nil]
      exact h.begun (List.cons_ne_nil _ _)
    have henabled : f.extensions.enables r.extension := by
      rw [hext]
      exact hfull
    obtain ⟨mid, hnil, -, htake⟩ := hwords.takes_under hrest.ends .operator r henabled hr
    cases hnil
    have hread : Reads f (.behind saved text) (eatFirst (before ++ (r, mode) :: after))
        (fun o => o = some mode) ⟨rest, (⟨.operator, saved⟩ : StateStack).apply r.next, some []⟩ :=
      reads_eatFirst_under hdecline htake
    rw [hstay] at hread
    rw [hrules]
    exact reads_leave hread

/-- Nothing is read of options and of a weight where none is written. -/
theorem reads_withoutOptions (hrest : EndsSelection bound rest)
    (h : Reads f (.before saved text) (ftPrimary single additive selection) (fun a => a = s)
      (.behind saved rest)) :
    Reads f (.before saved text) (ftPrimaryWithOptions single additive selection) (fun a => a = s)
      (.behind saved rest) := by
  have hrules := hrest.declines_behind
  have hoptions : Reads f (.behind saved rest) matchOptions (fun o => o = .empty)
      (.behind saved rest) := by
    apply reads_iterate
    apply reads_iterateWithin_done
    apply reads_ifEat_declined (hrules Terminal.usingOption (by simp [ftBehindRules]))
    exact reads_pure ⟨_, rfl, rfl⟩
  refine reads_bind h fun a ha => ?_
  refine reads_bind hoptions fun options ho => ?_
  refine reads_bind (reads_whenEats_declined (hrules Terminal.weightOpen (by simp [ftBehindRules])))
    fun weight hw => ?_
  rw [ho, hw]
  exact reads_pure ha

theorem readsSelection_words (hfull : f.extensions.fullText) (value : String)
    (mode : Option FtAnyAll) :
    ReadsSelection f 0 (FtTree.words value mode).pieces (ftLevel single additive selection 0)
      (FtTree.words value mode).selection := by
  intro saved text rest bound hsize h hrest hbound
  have hbegins : Begins stringViews text := h.begins_string
  have hprimary : Begins ftPrimaryViews text := hbegins.weaken (List.subset_append_left _ _)
  have hfront := hprimary.of_rules (by rfl) ftPrimaryRules_decline
  have hgroup := hbegins.of_rules rfl ftGroupOpen_declines_strings
  obtain ⟨space, chars, mid, rfl, hspace, hchars, hmid⟩ := h
  have hends : endsToken mid := hmid.ends hrest.ends
  have hstring : (Token.string value).Spells chars := hchars
  have htake : TakesUnder f.extensions .expression (space ++ (chars ++ mid)) Terminal.ftWords mid
      [.string value] := by
    refine ⟨hfull, rfl, Scan.matches_of_trivia rfl rfl hspace (hchars.settled hends) ?_⟩
    have hitems : Terminal.ftWords.items = [.capture .string] := by rfl
    rw [hitems]
    exact hstring.accepts_string hends.ne_quotes (Scan.accepts_nil mid)
  refine reads_withoutOptions hrest ?_
  apply reads_ifPeek_declined (hfront Terminal.pragmaOpen (by simp))
  apply reads_ifEat_declined (hgroup Terminal.ftGroupOpen (by simp))
  apply reads_ifEat_under htake
  refine reads_bind (reads_captured fun captures => captures.string 0) fun text ht => reads_forget ?_
  refine reads_bind (reads_ftMode hfull hmid hrest) fun m hm => ?_
  have htimes := hrest.declines_behind Terminal.occurs (by simp [ftBehindRules])
  refine reads_bind (reads_whenEats_declined htimes) fun times ho => ?_
  rw [ht, hm, ho]
  exact reads_pure rfl

/-! ### Parentheses -/

/-- A whole selection is read in parentheses, one level further down. -/
theorem reads_ftFiltered (hrest : EndsSelection 5 rest)
    (h : Reads f (.before saved text) (ftOr single additive selection) (fun a => a = s)
      (.behind saved rest)) :
    Reads f (.before saved text) (ftFiltered single additive selection) (fun a => a = s)
      (.behind saved rest) := by
  have hrules : ∀ r ∈ ftFilterRules, Declines .operator rest r :=
    fun r hr => hrest.declines_filters rfl r (List.mem_cons_of_mem _ hr)
  have hfilters : Reads f (.behind saved rest) (many (ftPosFilter additive)) (fun fs => fs = [])
      (.behind saved rest) := by
    apply reads_many
    apply reads_manyWithin_nil
    apply reads_ifEat_declined (hrules Terminal.ftOrdered (by simp [ftFilterRules]))
    apply reads_ifEat_declined (hrules Terminal.ftWindow (by simp [ftFilterRules]))
    apply reads_ifEat_declined (hrules Terminal.distance (by simp [ftFilterRules]))
    apply reads_ifEat_declined (hrules Terminal.sameUnit (by simp [ftFilterRules]))
    apply reads_ifEat_declined (hrules Terminal.differentUnit (by simp [ftFilterRules]))
    apply reads_eatFirst_declined
    simp only [List.forall_mem_cons]
    exact ⟨hrules _ (by simp [ftFilterRules]), hrules _ (by simp [ftFilterRules]),
      hrules _ (by simp [ftFilterRules]), fun _ h => nomatch h⟩
  refine reads_bind h fun a ha => ?_
  refine reads_bind hfilters fun fs hfs => ?_
  rw [hfs]
  exact reads_pure ha

theorem readsSelection_group (hfull : f.extensions.fullText) (hne : pieces ≠ [])
    (hdepth : f.depth < f.maxDepth)
    (h : ReadsSelection { f with depth := f.depth + 1 } 4 pieces
      (ftLevel single additive (ftSelectionWithin single additive n) 4) s) :
    ReadsSelection f 0 (.mark "(" :: (pieces ++ [Piece.mark ")"]))
      (ftLevel single additive (ftSelectionWithin single additive (n + 1)) 0) s := by
  intro saved text rest bound hsize htext hrest hbound
  have hends : endsToken rest := hrest.ends
  have hbegins : Begins [parenView] text := htext.begins_group (by simp) hends
  have hprimary : Begins ftPrimaryViews text := hbegins.weaken (List.subset_append_right _ _)
  have hfront := hprimary.of_rules (by rfl) ftPrimaryRules_decline
  have hopen : Begun (marks ["("] ++ (pieces ++ [Piece.mark ")"])) text rest := htext
  obtain ⟨inside, hinside, hlt, htake⟩ :=
    hopen.takes_under hends .expression Terminal.ftGroupOpen hfull (by rfl)
  obtain ⟨mid, hpieces, hclosing⟩ := (hinside.begun (by simp)).append hne
  obtain ⟨behind, hnil, -, hclose⟩ :=
    (hclosing.begun (List.cons_ne_nil _ _)).takes_mark hends .operator Terminal.rparen rfl (by rfl)
  cases hnil
  have hend : EndsSelection 5 mid := .of_closing hclosing hends
  have hread : Reads { f with depth := f.depth + 1 } (.before saved inside)
      (ftOr single additive (ftSelectionWithin single additive n)) (fun a => a = s) (.behind saved mid) :=
    h saved inside mid 5 (Nat.le_trans (Nat.le_of_lt hlt) hsize) hpieces hend (by decide)
  refine reads_withoutOptions hrest ?_
  apply reads_ifPeek_declined (hfront Terminal.pragmaOpen (by simp))
  apply reads_ifEat_under htake
  refine reads_bind (reads_forget (reads_nested hdepth (reads_ftFiltered hend hread))) fun a ha => ?_
  refine reads_bind (reads_expect hclose) fun _ _ => ?_
  exact reads_forget (reads_pure ha)

/-! ### Connectives -/

theorem ftLevel_connective (c : FtConnective) :
    ftLevel single additive selection c.level =
      ftChain c.join <$> separatedBy c.rule (ftLevel single additive selection (c.level - 1)) := by
  cases c <;> rfl

/-- Behind an operand comes the connective, or what may come behind the last operand. -/
theorem FtTree.ends_operand {ts : List FtTree} (h : Spaced (furtherPieces c ts) text rest)
    (hrest : EndsSelection bound rest) (hbound : c.level < bound) :
    ∃ bound', EndsSelection bound' text ∧ c.level - 1 < bound' := by
  cases ts with
  | nil =>
    cases h
    exact ⟨bound, hrest, by omega⟩
  | cons t ts =>
    have hlevel := c.level_bounds.1
    exact ⟨c.level, .of_connective h hrest.ends, by omega⟩

/-- Operands with the connective in front of each are read one after the other, up to what may come behind
the last. -/
theorem reads_furtherSelections {p : Parser (FtSelection Expr)} {ts : List FtTree}
    (hfull : f.extensions.fullText)
    (h : ∀ t ∈ ts, ReadsSelection f (c.level - 1) (t.operandPieces c.level) p t.selection)
    (hsize : text.length ≤ f.size) (htext : Spaced (FtTree.furtherPieces c ts) text rest)
    (hrest : EndsSelection bound rest) (hbound : c.level < bound) {k : Nat} (hk : text.length < k) :
    Reads f (.behind saved text) (manyWithin (whenEats c.rule p) k)
      (fun ss => ss = FtTree.selections ts) (.behind saved rest) := by
  induction ts generalizing text k with
  | nil =>
    cases htext
    obtain ⟨k, rfl⟩ := Nat.exists_eq_add_of_lt hk
    exact reads_manyWithin_nil (reads_whenEats_declined (hrest.declines_connective hbound))
  | cons t ts ih =>
    obtain ⟨k, rfl⟩ := Nat.exists_eq_add_of_lt hk
    obtain ⟨first, more, hspelling, hphrase, hext, hgoto⟩ := c.rule_spelled
    have hends : endsToken rest := hrest.ends
    have hpieces : Begun (marks (first :: more) ++ (t.operandPieces c.level ++ FtTree.furtherPieces c ts))
        text rest := by
      rw [← hspelling]
      exact htext.begun (by simp [FtTree.furtherPieces, hspelling])
    have henabled : f.extensions.enables c.rule.extension := by
      rw [hext]
      exact hfull
    obtain ⟨inside, hinside, hlt, htake⟩ := hpieces.takes_under hends .operator c.rule henabled hphrase
    have hoperand : Begun (t.operandPieces c.level ++ FtTree.furtherPieces c ts) inside rest :=
      hinside.begun (List.append_ne_nil_of_left_ne_nil (t.operandPieces_ne_nil _) _)
    obtain ⟨mid, hfirst, hmid⟩ := hoperand.append (t.operandPieces_ne_nil _)
    have hle := hfirst.length_le
    obtain ⟨bound', hend, hbound'⟩ := FtTree.ends_operand hmid hrest hbound
    have hread : Reads f (.before saved inside) p (fun a => a = t.selection) (.behind saved mid) :=
      h t List.mem_cons_self saved inside mid bound' (by omega) hfirst hend hbound'
    have hnext : Reads f (.behind saved text) (whenEats c.rule p)
        (fun o => ∃ a, o = some a ∧ a = t.selection) (.behind saved mid) := by
      refine reads_whenEats_under htake ?_
      rw [hgoto]
      exact reads_forget hread
    have htail : Reads f (.behind saved mid) (manyWithin (whenEats c.rule p) (text.length + k))
        (fun ss => ss = FtTree.selections ts) (.behind saved rest) :=
      ih (fun t' ht' => h t' (List.mem_cons_of_mem t ht')) (by omega) hmid (by omega)
    refine reads_weaken (reads_manyWithin_cons hnext htail) fun ss hss => ?_
    obtain ⟨a, ss', rfl, rfl, rfl⟩ := hss
    rfl

/-- Operands are read with the connective between them, and one operand is read alone. -/
theorem readsSelection_chain {t : FtTree} {ts : List FtTree} (hfull : f.extensions.fullText)
    (h : ∀ t' ∈ t :: ts, ReadsSelection f (c.level - 1) (t'.operandPieces c.level)
      (ftLevel single additive selection (c.level - 1)) t'.selection) :
    ReadsSelection f c.level (t.operandPieces c.level ++ FtTree.furtherPieces c ts)
      (ftLevel single additive selection c.level) (ftChain c.join (t.selection :: FtTree.selections ts)) := by
  intro saved text rest bound hsize htext hrest hbound
  obtain ⟨mid, hfirst, hmid⟩ := htext.append (t.operandPieces_ne_nil _)
  have hle := hfirst.length_le
  obtain ⟨bound', hend, hbound'⟩ := FtTree.ends_operand hmid hrest hbound
  have hread : Reads f (.before saved text) (ftLevel single additive selection (c.level - 1))
      (fun a => a = t.selection) (.behind saved mid) :=
    h t List.mem_cons_self saved text mid bound' hsize hfirst hend hbound'
  have hmore : Reads f (.behind saved mid)
      (many (whenEats c.rule (ftLevel single additive selection (c.level - 1))))
      (fun ss => ss = FtTree.selections ts) (.behind saved rest) := by
    apply reads_many
    exact reads_furtherSelections hfull (fun t' ht' => h t' (List.mem_cons_of_mem t ht')) (by omega) hmid
      hrest hbound (by omega)
  rw [ftLevel_connective]
  apply reads_map
  refine reads_bind hread fun a ha => reads_bind hmore fun ss hss => ?_
  rw [ha, hss]
  exact reads_pure rfl

/-! ### Looser levels -/

/-- Words or parentheses are what the pieces begin with. -/
def BeginsPrimary (pieces : List Piece) : Prop :=
  ∀ text rest, Begun pieces text rest → endsToken rest → Begins ftPrimaryViews text

/-- What the parser of a level reads that of the next looser one reads as well. -/
theorem ReadsSelection.next (hlevel : level < 4) (hfirst : level = 0 → BeginsPrimary pieces)
    (h : ReadsSelection f level pieces (ftLevel single additive selection level) s) :
    ReadsSelection f (level + 1) pieces (ftLevel single additive selection (level + 1)) s := by
  intro saved text rest bound hsize htext hrest hbound
  have hread := h saved text rest bound hsize htext hrest (Nat.lt_of_succ_lt hbound)
  have of_connective (c : FtConnective) (hc : c.level = level + 1) :
      Reads f (.before saved text) (ftLevel single additive selection (level + 1)) (fun a => a = s)
        (.behind saved rest) := by
    have hrule : Declines .operator rest c.rule := hrest.declines_connective (hc ▸ hbound)
    have hnone : Reads f (.behind saved rest)
        (many (whenEats c.rule (ftLevel single additive selection level))) (fun ss => ss = [])
        (.behind saved rest) :=
      reads_many (reads_manyWithin_nil (reads_whenEats_declined hrule))
    rw [← hc, ftLevel_connective, hc, Nat.add_sub_cancel]
    apply reads_map
    refine reads_bind hread fun a ha => reads_bind hnone fun ss hss => ?_
    rw [ha, hss]
    exact reads_pure rfl
  match level, hlevel with
  | 0, _ =>
    have hnot := (hfirst rfl text rest htext hrest.ends).of_rules (by rfl) ftPrimaryRules_decline
      Terminal.ftNot (by simp)
    exact reads_ifEat_declined hnot hread
  | 1, _ => exact of_connective .mildNot rfl
  | 2, _ => exact of_connective .and rfl
  | 3, _ => exact of_connective .or rfl

theorem ReadsSelection.looser {place : Nat} (hplace : level ≤ place) (hlimit : place ≤ 4)
    (hfirst : level = 0 → BeginsPrimary pieces)
    (h : ReadsSelection f level pieces (ftLevel single additive selection level) s) :
    ReadsSelection f place pieces (ftLevel single additive selection place) s := by
  induction place, hplace using Nat.le_induction with
  | base => exact h
  | succ place hle ih =>
    refine ReadsSelection.next (by omega) (fun hzero => hfirst (by omega)) (ih (by omega))

/-! ### Trees -/

namespace FtTree

/-- The tree is read at every level that is loose enough, if as many selections may be inside one another
as it opens parentheses. -/
def ReadsIn (single additive : Parser Expr) (t : FtTree) : Prop :=
  ∀ (n : Nat) (f : Frame) (level : Nat), f.extensions.fullText → t.level ≤ level → level ≤ 4 →
    t.opens ≤ n → f.depth + t.opens ≤ f.maxDepth →
      ReadsSelection f level t.pieces
        (ftLevel single additive (ftSelectionWithin single additive n) level) t.selection

theorem beginsPrimary_words (value : String) (mode : Option FtAnyAll) :
    BeginsPrimary (words value mode).pieces :=
  fun _ _ h _ => h.begins_string.weaken (List.subset_append_left _ _)

theorem beginsPrimary_group (pieces : List Piece) :
    BeginsPrimary (.mark "(" :: (pieces ++ [Piece.mark ")"])) :=
  fun _ _ h hends => (h.begins_group (by simp) hends).weaken (List.subset_append_right _ _)

/-- An operand is read where it stands, in parentheses if it needs them. -/
theorem ReadsIn.operand {t : FtTree} {place : Nat} (h : t.ReadsIn single additive)
    (hfull : f.extensions.fullText) (hplace : place < 4) (hopens : t.opensUnder (place + 1) ≤ n)
    (hdepth : f.depth + t.opensUnder (place + 1) ≤ f.maxDepth) :
    ReadsSelection f place (t.operandPieces (place + 1))
      (ftLevel single additive (ftSelectionWithin single additive n) place) t.selection := by
  unfold operandPieces groupedPieces
  unfold opensUnder at hopens hdepth
  by_cases hneeded : place + 1 ≤ t.level
  · simp only [decide_eq_true hneeded, Bool.toNat_true, if_true] at hopens hdepth ⊢
    obtain ⟨n, rfl⟩ := Nat.exists_eq_add_of_le' (Nat.le_trans (Nat.le_add_left 1 _) hopens)
    have hinner := h n { f with depth := f.depth + 1 } 4 hfull t.level_le_four (Nat.le_refl _)
      (Nat.le_of_succ_le_succ hopens) (by rw [Nat.add_assoc, Nat.add_comm 1]; exact hdepth)
    have hgroup := readsSelection_group hfull t.pieces_ne_nil (by omega) hinner
    exact hgroup.looser (Nat.zero_le _) (Nat.le_of_lt hplace) fun _ => beginsPrimary_group _
  · simp only [decide_eq_false hneeded, Bool.toNat_false] at hopens hdepth ⊢
    exact h n f place hfull (by omega) (Nat.le_of_lt hplace) hopens hdepth

theorem opensUnder_le_opensOfAll {t : FtTree} {ts : List FtTree} (h : t ∈ ts) :
    t.opensUnder c.level ≤ opensOfAll c ts := by
  induction ts with
  | nil => cases h
  | cons t' ts ih =>
    rcases List.mem_cons.1 h with rfl | h
    · exact Nat.le_max_left _ _
    · exact Nat.le_trans (ih h) (Nat.le_max_right _ _)

theorem readsIn_words (value : String) (mode : Option FtAnyAll) :
    (words value mode).ReadsIn single additive := fun _ _ _ hfull hlevel hlimit _ _ =>
  (readsSelection_words hfull value mode).looser hlevel hlimit fun _ => beginsPrimary_words value mode

theorem readsIn_not {t : FtTree} (h : t.ReadsIn single additive) :
    (FtTree.not t).ReadsIn single additive := by
  intro n f level hfull hlevel hlimit hopens hdepth
  have hoperand : ReadsSelection f 0 (t.operandPieces 1)
      (ftLevel single additive (ftSelectionWithin single additive n) 0) t.selection :=
    h.operand hfull (by decide) hopens hdepth
  have hpos : (1 : Nat) ≠ 0 := by decide
  refine ReadsSelection.looser hlevel hlimit (fun hzero => absurd hzero hpos) ?_
  intro saved text rest bound hsize htext hrest hbound
  have hmark : Begun (marks ["ftnot"] ++ t.operandPieces 1) text rest := htext
  obtain ⟨inside, hinside, hlt, htake⟩ :=
    hmark.takes_under hrest.ends .expression Terminal.ftNot hfull (by rfl)
  have hread := hoperand saved inside rest bound (by omega) (hinside.begun (t.operandPieces_ne_nil _)) hrest
    (by omega)
  refine reads_ifEat_under htake ?_
  refine reads_bind (reads_forget hread) fun a ha => ?_
  rw [ha]
  exact reads_pure rfl

theorem readsIn_chain {first second : FtTree} {more : List FtTree}
    (h : ∀ t ∈ first :: second :: more, t.ReadsIn single additive) :
    (chain c first second more).ReadsIn single additive := by
  intro n f level hfull hlevel hlimit hopens hdepth
  have hbounds := c.level_bounds
  have hpred : c.level - 1 + 1 = c.level := by omega
  have hoperands : ∀ t ∈ first :: second :: more, ReadsSelection f (c.level - 1) (t.operandPieces c.level)
      (ftLevel single additive (ftSelectionWithin single additive n) (c.level - 1)) t.selection := by
    intro t ht
    have hle : t.opensUnder (c.level - 1 + 1) ≤ (chain c first second more).opens := by
      rw [hpred]
      exact opensUnder_le_opensOfAll ht
    have hroom : f.depth + t.opensUnder (c.level - 1 + 1) ≤ f.maxDepth :=
      Nat.le_trans (Nat.add_le_add_left hle _) hdepth
    have hread := (h t ht).operand hfull (by omega) (Nat.le_trans hle hopens) hroom
    rw [hpred] at hread
    exact hread
  have hchain := readsSelection_chain hfull hoperands
  have hpos : c.level ≠ 0 := by omega
  exact hchain.looser hlevel hlimit fun hzero => absurd hzero hpos

/-- Every tree is read, whatever stands where its words end. -/
theorem readsIn (t : FtTree) : t.ReadsIn single additive := by
  match t with
  | words value mode => exact readsIn_words value mode
  | not t => exact readsIn_not t.readsIn
  | chain c first second more =>
    have hmore : ∀ t ∈ more, t.ReadsIn single additive := fun t _ => t.readsIn
    refine readsIn_chain ?_
    simp only [List.forall_mem_cons]
    exact ⟨first.readsIn, second.readsIn, hmore⟩

end FtTree

/-! ### Searches in the context item -/

section

variable {pieces : List Piece} {text rest : List Char} {f : Frame} {saved : List LexicalState}

theorem Begun.pieces_le (h : Begun pieces text rest) : pieces.length ≤ text.length := by
  cases pieces with
  | nil => exact h.elim
  | cons piece pieces =>
    obtain ⟨space, chars, mid, rfl, -, hchars, htext⟩ := h
    have hlonger := List.length_pos_iff.2 hchars.ne_nil
    have hle := htext.length_le
    simp only [List.length_append, List.length_cons]
    omega

namespace FtTree

theorem opensUnder_le {t : FtTree} (h : t.opens ≤ t.pieces.length) (level : Nat) :
    t.opensUnder level ≤ (t.operandPieces level).length := by
  unfold opensUnder operandPieces groupedPieces
  by_cases hneeded : level ≤ t.level
  · simp only [decide_eq_true hneeded, Bool.toNat_true, if_true, List.length_cons, List.length_append]
    omega
  · simp only [decide_eq_false hneeded, Bool.toNat_false]
    exact h

mutual

/-- A tree is written with at least as many pieces as it opens parentheses. -/
theorem opens_le_length (t : FtTree) : t.opens ≤ t.pieces.length := by
  match t with
  | words .. => exact Nat.zero_le _
  | not t => exact Nat.le_succ_of_le (opensUnder_le t.opens_le_length 1)
  | chain c first second more =>
    have hfirst := opensUnder_le first.opens_le_length c.level
    have hmore : opensOfAll c (second :: more) ≤ (furtherPieces c (second :: more)).length := by
      have hsecond := opensUnder_le second.opens_le_length c.level
      have hothers := opensOfAll_le_length c more
      change max (second.opensUnder c.level) (opensOfAll c more) ≤
        (marks c.spelling ++ (second.operandPieces c.level ++ furtherPieces c more)).length
      simp only [List.length_append]
      omega
    change max (first.opensUnder c.level) (opensOfAll c (second :: more)) ≤
      (first.operandPieces c.level ++ furtherPieces c (second :: more)).length
    rw [List.length_append]
    omega

/-- The same of operands. -/
theorem opensOfAll_le_length (c : FtConnective) (ts : List FtTree) :
    opensOfAll c ts ≤ (furtherPieces c ts).length := by
  match ts with
  | [] => exact Nat.zero_le _
  | t :: ts =>
    have hfirst := opensUnder_le t.opens_le_length c.level
    have hmore := opensOfAll_le_length c ts
    change max (t.opensUnder c.level) (opensOfAll c ts) ≤
      (marks c.spelling ++ (t.operandPieces c.level ++ furtherPieces c ts)).length
    simp only [List.length_append]
    omega

end

end FtTree

theorem reads_ftSelection {single additive : Parser Expr} (t : FtTree) (hfull : f.extensions.fullText)
    (hdepth : f.depth + t.opens < f.maxDepth) (hsize : text.length ≤ f.size)
    (h : Begun t.pieces text rest) (hrest : EndsSelection 5 rest) :
    Reads f (.before saved text) (ftSelection single additive) (fun a => a = t.selection)
      (.behind saved rest) := by
  have hopens : t.opens ≤ f.size := Nat.le_trans t.opens_le_length (Nat.le_trans h.pieces_le hsize)
  have htree : t.ReadsIn single additive := t.readsIn
  have hread := htree f.size { f with depth := f.depth + 1 } 4
    hfull t.level_le_four (Nat.le_refl _) hopens (by rw [Nat.add_right_comm]; exact hdepth) saved text rest 5
    hsize h hrest (by decide)
  have hselection : Reads f (.before saved text) (ftSelectionWithin single additive (f.size + 1))
      (fun a => a = t.selection) (.behind saved rest) :=
    reads_nested (by omega) (reads_ftFiltered hrest hread)
  intro st hst
  have hsteps : st.steps = f.size + 1 := by
    rw [← hst.frame]
    rfl
  have hrun := hselection st hst
  rw [← hsteps] at hrun
  exact hrun

/-- The rules that are tried in front of the context item. -/
theorem contextView_decline :
    ((keywordRules ++ signRules ++ valueRules ++ literalRules ++ [Terminal.parentStep]).all fun r =>
      Scan.declinesAt .expression r [.char '.', .gap]) = true := by
  rw [Scan.declinesAt_eq]
  rfl

/-- The rules that are tried between an operand and the words of a search. -/
def searchFrontRules : List Rule :=
  (Layer.all.filter fun layer => layer.rank ≤ Layer.additive.rank).flatMap Layer.rules ++
    [Terminal.toRange, Terminal.ftContains]

theorem containsText_front :
    (searchFrontRules.all fun r =>
      Scan.declinesAt .operator r (Piece.views [] (marks ["contains", "text"]))) = true := by
  rw [Scan.declinesAt_eq]
  rfl

theorem reads_primary_contextItem {single : Parser Expr}
    (h : ∀ r ∈ literalRules ++ [Terminal.parentStep], Declines .expression text r)
    (htake : Takes .expression text Terminal.contextItem rest []) :
    Reads f (.before saved text) (primary single)
      (fun o => ∃ e, o = some e ∧ e.kind = .contextItem) (.behind saved rest) := by
  have hnumber := h Terminal.numericLiteral (by simp [literalRules])
  have hstring := h Terminal.stringLiteral (by simp [literalRules])
  refine reads_bind (reads_literal_declined hnumber hstring) fun o ho => ?_
  rw [ho]
  apply reads_ifPeek_declined (h Terminal.variableReference (by simp [literalRules]))
  apply reads_ifEat_declined (h Terminal.lparen (by simp [literalRules]))
  refine reads_bind (reads_peek_declined (h Terminal.parentStep (by simp))) fun dots hdots => ?_
  rw [hdots]
  apply reads_ifEat htake
  refine reads_bind reads_start fun offset _ => reads_forget ?_
  refine reads_bind (reads_node .contextItem offset) fun e he => ?_
  rw [he]
  exact reads_pure ⟨_, rfl, rfl⟩

/-- A search in the context item. -/
def FtTree.searchPieces (t : FtTree) : List Piece := marks [".", "contains", "text"] ++ t.pieces

theorem reads_search {t : FtTree} {k : Nat} (hfull : f.extensions.fullText)
    (hdepth : f.depth + t.opens < f.maxDepth) (hsize : text.length ≤ f.size)
    (h : Begun t.searchPieces text rest) (hrest : EndsSelection 5 rest) :
    (∀ r ∈ keywordRules, Declines .expression text r) ∧
      Reads f (.before saved text) (Layer.range.parser k)
        (fun e => ∃ item, item.kind = .contextItem ∧ e.kind = .ftContains item t.selection none)
        (.behind saved rest) := by
  have hends := hrest.ends
  have hdot : Begun (.mark "." :: (marks ["contains", "text"] ++ t.pieces)) text rest := h
  obtain ⟨behind, hbehind, hlt, hitem⟩ :=
    hdot.takes_mark hends .expression Terminal.contextItem rfl (by rfl)
  have hwords : Begun (marks ["contains", "text"] ++ t.pieces) behind rest :=
    hbehind.begun (List.cons_ne_nil _ _)
  obtain ⟨inside, hinside, hlt', hcontains⟩ :=
    hwords.takes_under hends .operator Terminal.containsText hfull (by rfl)
  have hbegins : Begins [[.char '.', .gap]] text := hdot.begins_spaced (List.cons_ne_nil _ _) hends
  have hfront : ∀ r ∈ keywordRules ++ signRules ++ valueRules ++ literalRules ++ [Terminal.parentStep],
      Declines .expression text r :=
    fun r hr => hbegins.declinesAt (List.all_eq_true.1 contextView_decline r hr)
  have hbetween : ∀ r ∈ searchFrontRules, Declines .operator behind r := fun r hr =>
    hwords.declines (List.cons_ne_nil _ _) hends .operator r (List.all_eq_true.1 containsText_front r hr)
  have literal_subset : literalRules ++ [Terminal.parentStep] ⊆
      keywordRules ++ signRules ++ valueRules ++ literalRules ++ [Terminal.parentStep] := by
    rw [List.append_assoc _ literalRules]
    exact List.subset_append_right _ _
  have hlayers : ∀ layer : Layer, layer.rank ≤ Layer.additive.rank →
      ∀ r ∈ layer.rules, Declines .operator behind r := by
    intro layer hlayer r hr
    refine hbetween r (List.mem_append_left _ (List.mem_flatMap.2 ⟨layer, ?_, hr⟩))
    exact List.mem_filter.2 ⟨layer.mem_all, decide_eq_true hlayer⟩
  have hprimary : Reads f (.before saved text) (primary (singleWithin k))
      (fun o => ∃ e, o = some e ∧ e.kind = .contextItem) (.behind saved behind) :=
    reads_primary_contextItem (fun r hr => hfront r (literal_subset hr)) hitem
  have hvalue : Reads f (.before saved text) (Layer.primary.parser k) (fun e => e.kind = .contextItem)
      (.behind saved behind) := by
    refine reads_valueExpr_primary (fun r hr => hfront r (by simp [hr])) hprimary ?_
      (hlayers .primary (by decide))
    intro e he axis test predicates hstep
    rw [he] at hstep
    cases hstep
  have hadditive : Reads f (.before saved text) (Layer.additive.parser k) (fun e => e.kind = .contextItem)
      (.behind saved behind) :=
    Layer.reads_climb hlayers (by decide) (by decide) (fun _ r hr => hfront r (by simp [hr])) hvalue
  have hrange : Reads f (.before saved text) (rangeExpr (singleWithin k)) (fun e => e.kind = .contextItem)
      (.behind saved behind) :=
    reads_suffixed hadditive (hbetween Terminal.toRange (by simp [searchFrontRules]))
  have hsearch : Reads f (.behind saved behind)
      (eatFirst [(Terminal.ftContains, ()), (Terminal.containsText, ())]) (fun o => o = some ())
      ⟨inside, ⟨.expression, saved⟩, some []⟩ := by
    have hfirst : ∀ o ∈ [(Terminal.ftContains, ())], Declines .operator behind o.1 :=
      List.forall_mem_singleton.2 (hbetween Terminal.ftContains (by simp [searchFrontRules]))
    have hfound : TakesUnder f.extensions (⟨.operator, saved⟩ : StateStack).active behind
        Terminal.containsText inside [] := hcontains
    exact reads_eatFirst_under hfirst hfound
  have hselection : Reads f (.before saved inside)
      (ftSelection (singleWithin k) (additiveExpr (singleWithin k))) (fun a => a = t.selection)
      (.behind saved rest) :=
    reads_ftSelection t hfull hdepth (by omega) (hinside.begun t.pieces_ne_nil) hrest
  have hwithout := hrest.declines_filters rfl Terminal.withoutContent List.mem_cons_self
  refine ⟨fun r hr => hfront r (by simp [hr]), ?_⟩
  refine reads_bind hrange fun item hcontext => ?_
  refine reads_bind hsearch fun o ho => ?_
  rw [ho]
  refine reads_bind reads_start fun offset _ => reads_forget ?_
  refine reads_bind hselection fun s hs => ?_
  refine reads_bind (reads_whenEats_declined hwithout) fun w hw => ?_
  refine reads_weaken (reads_node _ offset) fun e he => ?_
  rw [he, hs, hw]
  exact ⟨item, hcontext, rfl⟩

end

/-- A search for a selection in the context item is parsed back, with space of any kind between its tokens,
if full-text search is on and as many levels may be open as the parentheses need with two more: chains of
one connective are flat, chains in parentheses stay apart, and an operand alone is itself. -/
theorem printed_selection_is_parsed_back (t : FtTree) (text : String) (config : Config)
    {space : List Char} (hfull : config.extensions.fullText) (hdepth : t.opens + 2 ≤ config.maxDepth)
    (h : Begun t.searchPieces text.toList space) (hspace : Trivia space) :
    ∃ e item, parseExpression text config = .ok e ∧ item.kind = .contextItem ∧
      e.kind = .ftContains item t.selection none := by
  let f : Frame := wholeFrame text config
  have hsize : text.toList.length ≤ f.size := length_le_size text config
  have hdepth' : f.depth + 1 + t.opens < f.maxDepth := by
    change 0 + 1 + t.opens < config.maxDepth
    omega
  let inner : Frame := { f with depth := f.depth + 1 }
  have hinner : inner.depth + t.opens < inner.maxDepth := hdepth'
  have hsearch : _ ∧ Reads inner (.before [] text.toList) (Layer.range.parser f.size) _ _ :=
    reads_search hfull hinner hsize h (.of_space hspace)
  obtain ⟨hkeywords, hrange⟩ := hsearch
  have hbehind := behind_space hspace
  have hrank : Layer.range.rank ≤ Layer.or.rank := by decide
  have hor : Reads inner (.before [] text.toList) (Layer.or.parser f.size)
      (fun e => ∃ item, item.kind = .contextItem ∧ e.kind = .ftContains item t.selection none)
      (.behind [] space) :=
    Layer.reads_looser hbehind (by decide) hrank (Nat.le_refl _) (fun hlayer => nomatch hlayer) hrange
  have hsingle : Reads f (.before [] text.toList) (singleWithin (f.size + 1))
      (fun e => ∃ item, item.kind = .contextItem ∧ e.kind = .ftContains item t.selection none)
      (.behind [] space) := reads_nested (by omega) (reads_singleOf hkeywords hor)
  have hcomma : Declines .operator space Terminal.comma :=
    hbehind.declines (Nat.lt_succ_self _) Terminal.comma List.mem_cons_self
  obtain ⟨e, hparse, item, hitem, hkind⟩ :=
    parseExpression_of_reads hspace (reads_expr (OperatorTree.reads_exprSingle hsingle) hcomma)
  exact ⟨e, item, hparse, hitem, hkind⟩

namespace FtTree

/-- A disjunction in parentheses, joined with a negation. -/
def grouped : FtTree :=
  chain .and (chain .or (words "a" (some .anyWord)) (words "b" none) []) (not (words "c" none)) []

theorem grouped_begun : Begun grouped.searchPieces
    ". contains text ( 'a' any word ftor 'b' ) ftand ftnot 'c'".toList [] := by
  have mark (word : String) (h : isKeyword word.toList || isSymbol word.toList) :
      (Piece.mark word).Spells word.toList := ⟨h, rfl⟩
  have quoted (c : Char) (hquote : c ≠ '\'') (hand : c ≠ '&') :
      (Piece.string (String.ofList [c])).Spells ['\'', c, '\''] := by
    refine ⟨'\'', [c], .inr rfl, ?_, rfl⟩
    rw [String.toList_ofList]
    exact .plain c hquote hand .nil
  rw [String.toList_ofList]
  exact ⟨[], ".".toList, _, rfl, .nil, mark "." (by decide),
    .blank (mark "contains" (by decide)) (.blank (mark "text" (by decide)) (.blank (mark "(" (by decide))
      (.blank (quoted 'a' (by decide) (by decide)) (.blank (mark "any" (by decide))
        (.blank (mark "word" (by decide)) (.blank (mark "ftor" (by decide))
          (.blank (quoted 'b' (by decide) (by decide)) (.blank (mark ")" (by decide))
            (.blank (mark "ftand" (by decide)) (.blank (mark "ftnot" (by decide))
              (.blank (quoted 'c' (by decide) (by decide)) (.nil _))))))))))))⟩

end FtTree

theorem grouped_selection_is_parsed_back :
    Config.standard.extensions.fullText ∧ FtTree.grouped.opens + 2 ≤ Config.standard.maxDepth ∧
      ∃ e item,
        parseExpression ". contains text ( 'a' any word ftor 'b' ) ftand ftnot 'c'" .standard = .ok e ∧
        item.kind = .contextItem ∧ e.kind = .ftContains item (.and [.or [.words "a" .anyWord none,
          .words "b" .any none], .not (.words "c" .any none)]) none :=
  ⟨rfl, by decide, printed_selection_is_parsed_back FtTree.grouped _ .standard rfl (by decide)
    FtTree.grouped_begun .nil⟩

/-- Parentheses count as levels, and so do the search and the expression that it is. -/
theorem grouped_selection_exceeds_two_levels :
    Begun FtTree.grouped.searchPieces
        ". contains text ( 'a' any word ftor 'b' ) ftand ftnot 'c'".toList [] ∧
      ∀ e, parseExpression ". contains text ( 'a' any word ftor 'b' ) ftand ftnot 'c'"
        { Config.standard with maxDepth := 2 } ≠ .ok e := by
  refine ⟨FtTree.grouped_begun, fun e h => ?_⟩
  have hfails : (parseExpression ". contains text ( 'a' any word ftor 'b' ) ftand ftnot 'c'"
      { Config.standard with maxDepth := 2 }).toOption.isNone := by decide +kernel
  rw [h] at hfails
  cases hfails

end XQuerySyntax
