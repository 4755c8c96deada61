import XQuerySyntax.Proofs.Comparison.Statement

/-! Full-text selections in two runs. They are read only behind a word of the extension, so here both
runs have it. What shows in the tree are the expressions inside a selection; the constants in match
options have places of their own. -/

namespace XQuerySyntax

/-! ### Match options at other places -/

namespace FtMatchOption

/-- The option with its constants at other places. -/
def moved (f : Nat → Nat) : FtMatchOption → FtMatchOption
  | thesaurus value => thesaurus (value.moved f)
  | option => option

variable {f : Nat → Nat}

theorem label_moved (option : FtMatchOption) : (option.moved f).label = option.label := by
  cases option <;> rfl

theorem isGiven_moved (option : FtMatchOption) (o : FtMatchOptions) :
    (option.moved f).isGiven (o.moved f) = option.isGiven o := by
  cases option with
  | thesaurus => exact Option.isSome_map
  | _ => rfl

theorem addTo_moved (option : FtMatchOption) (o : FtMatchOptions) :
    (option.moved f).addTo (o.moved f) = (option.addTo o).moved f := by
  cases option <;> rfl

end FtMatchOption

theorem FtMatchOptions.isEmpty_moved {f : Nat → Nat} (o : FtMatchOptions) :
    (o.moved f).isEmpty = o.isEmpty := by
  obtain ⟨language, wildcards, thesaurus, stemming, stopWords, letterCase, diacritics, extensions⟩ := o
  cases thesaurus with
  | none => rfl
  | some value =>
    have hgiven (value : FtThesaurusOption) : (FtMatchOptions.mk language wildcards (some value) stemming
        stopWords letterCase diacritics extensions).isEmpty = false :=
      beq_eq_false_iff_ne.2 fun h => nomatch congrArg thesaurus h
    exact (hgiven _).trans (hgiven value).symm

namespace Comparison

variable {S : Comparison}

def constant (S : Comparison) : S.Likeness LiteralNode := .moving LiteralNode.moved fun _ => False

def matchOption (S : Comparison) : S.Likeness FtMatchOption := .moving FtMatchOption.moved fun _ => False

instance : S.constant.Free := ⟨fun _ => id⟩

instance : S.matchOption.Free := ⟨fun _ => id⟩

@[simp]
theorem owes_constant (k : LiteralNode) : S.constant.owes k ↔ False := Iff.rfl

@[simp]
theorem owes_levels (r : FtRange LiteralNode) : S.levels.owes r ↔ False := Iff.rfl

@[simp]
theorem owes_thesaurusId (t : FtThesaurusId) : S.thesaurusId.owes t ↔ False := Iff.rfl

@[simp]
theorem owes_thesaurusOption (t : FtThesaurusOption) : S.thesaurusOption.owes t ↔ False := Iff.rfl

@[simp]
theorem owes_matchOption (o : FtMatchOption) : S.matchOption.owes o ↔ False := Iff.rfl

@[simp]
theorem owes_matchOptions (o : FtMatchOptions) : S.matchOptions.owes o ↔ False := Iff.rfl

/-- A chain shows what its operands show. -/
theorem owes_ftChain {wrap : List (FtSelection Expr) → FtSelection Expr}
    (hwrap : ∀ operands, S.ftSelection.owes (wrap operands) ↔ S.ftSelection.list.owes operands)
    (operands : List (FtSelection Expr)) :
    S.ftSelection.owes (Grammar.ftChain wrap operands) ↔ S.ftSelection.list.owes operands := by
  unfold Grammar.ftChain
  split
  · rw [owes_cons]
    simp
  · exact hwrap _

theorem like_ftChain {wrap : List (FtSelection Expr) → FtSelection Expr}
    (hwrap : ∀ {operands operands'}, S.ftSelection.list.like operands operands' →
      S.ftSelection.like (wrap operands) (wrap operands'))
    {operands operands' : List (FtSelection Expr)} (h : S.ftSelection.list.like operands operands') :
    S.ftSelection.like (Grammar.ftChain wrap operands) (Grammar.ftChain wrap operands') := by
  cases h with
  | nil => exact hwrap .nil
  | cons ha has =>
    cases has with
    | nil => exact ha
    | cons hb hbs => exact hwrap (.cons ha (.cons hb hbs))

/-- Lists of thesauri, of which the default one has no place. -/
theorem thesauri_of_like {found found' : List (Option FtThesaurusId)}
    (h : S.thesaurusId.option.list.like found found') :
    found.any Option.isNone = found'.any Option.isNone ∧
      S.thesaurusId.list.like (found.filterMap id) (found'.filterMap id) := by
  induction h with
  | nil => exact ⟨rfl, .nil⟩
  | cons ha _ ih =>
    cases ha with
    | none => exact ⟨rfl, ih.2⟩
    | some ht => exact ⟨ih.1, .cons ht ih.2⟩

end Comparison

namespace Grammar

open XQuerySyntax.Parser Comparison

variable {S : Comparison} {o o' : Nat}

/-! ### Match options -/

theorem agree_capturedConstant (i : Nat) : S.Agree False (S.Fresh .behind) (capturedConstant i)
    (capturedConstant i) S.constant fun _ => S.Fresh .behind := by
  refine .then (agree_capturedNumber? i) fun value => .seq agree_start fun o o' ho => ?_
  have hmodule (s s' : ParserState) (h : S.Fresh .behind s s') : s.module = s'.module := h.1.module.symm
  refine .look (L := .plain) hmodule fun module _ hm => .give ?_ (by simp)
  exact congrArg₂ (LiteralNode.mk (value.getD (.integer 0))) ho hm

theorem pairs_thesaurusLevels (hf : ¬S.Drops .fullText) :
    S.Pairs S.levels.option thesaurusLevels thesaurusLevels := by
  refine fun t => agree_ifReads hf ?_ (agree_ifReads hf ?_ (agree_ifReads hf ?_ (agree_ifReads hf ?_ .absent)))
  · exact .seq (agree_capturedConstant 0) fun k k' hk =>
      .settle (.give (.some (congrArg FtRange.exactly hk)) (by simp))
  · exact .seq (agree_capturedConstant 0) fun k k' hk =>
      .settle (.give (.some (congrArg FtRange.atLeast hk)) (by simp))
  · exact .seq (agree_capturedConstant 0) fun k k' hk =>
      .settle (.give (.some (congrArg FtRange.atMost hk)) (by simp))
  · refine .seq (agree_capturedConstant 0) fun low low' hl => ?_
    exact .seq (agree_capturedConstant 1) fun high high' hh =>
      .settle (.give (.some (congrArg₂ FtRange.fromTo hl hh)) (by simp))

theorem pairs_thesaurusId (hf : ¬S.Drops .fullText) :
    S.Pairs S.thesaurusId thesaurusId thesaurusId := by
  refine fun t => .then (fresh_expect hf) fun _ => .then (agree_capturedString 0) fun location => ?_
  refine .settle (t := t) (.then (agree_whenCaptures hf (fun c => c.string 0)) fun relationship => ?_)
  refine .seq (pairs_thesaurusLevels hf t) fun levels levels' hl => ?_
  have hlike : S.thesaurusId.like ⟨location, relationship, levels⟩ ⟨location, relationship, levels'⟩ :=
    congrArg (FtThesaurusId.mk location relationship) (option_map_of_like hl)
  have hsome : levels'.isSome = levels.isSome := by cases hl <;> rfl
  rw [hsome]
  exact .ite (fun _ => .then (agree_expect hf) fun _ => .give hlike (by simp)) fun _ => .give hlike (by simp)

theorem pairs_thesaurus (hf : ¬S.Drops .fullText) :
    S.Pairs S.thesaurusId.option thesaurus thesaurus :=
  fun t => agree_ifEat hf .absent (.found (pairs_thesaurusId hf t))

theorem pairs_thesaurusOption (hf : ¬S.Drops .fullText) :
    S.Pairs S.thesaurusOption thesaurusOption thesaurusOption := by
  intro t
  have hend (found found' : List (Option FtThesaurusId))
      (hl : S.thesaurusId.option.list.like found found') : S.Agree False (S.Near t)
      (do
        goto .operator
        return ⟨true, found.any Option.isNone, found.filterMap id⟩)
      (do
        goto .operator
        return ⟨true, found'.any Option.isNone, found'.filterMap id⟩) S.thesaurusOption
      fun _ => S.Near t := by
    obtain ⟨hdefault, hthesauri⟩ := thesauri_of_like hl
    rw [hdefault]
    exact .then (pairs_goto rfl t) fun _ =>
      .give (congrArg (FtThesaurusOption.mk true _) (map_of_like hthesauri)) (by simp)
  refine agree_ifEat hf ?_ ?_
  · refine .seq (agree_separatedBy hf (pairs_thesaurus hf)) fun found found' hl => ?_
    exact .then (agree_expect hf) fun _ => hend found found' hl
  · have hone : S.Agree False (S.Near t) ((fun t => [t]) <$> thesaurus) ((fun t => [t]) <$> thesaurus)
        S.thesaurusId.option.list fun _ => S.Near t :=
      (pairs_thesaurus hf t).map (fun _ _ hl => like_singleton hl) (by simp) fun _ _ _ h => h
    exact .seq hone hend

theorem pairs_stopWordList (hf : ¬S.Drops .fullText) :
    S.Pairs .plain stopWordList stopWordList := by
  refine fun t => .then (agree_separatedPlain hf (fun t => .then (fresh_eat hf) ?_)) fun _ => ?_
  · have hread : S.Agree False (S.Fresh .behind) (capturedString 0) (capturedString 0) .plain
        fun _ => S.Near t := (agree_capturedString 0).post fun _ _ _ h => .of_fresh h
    rintro (_ | _)
    · exact .then (Q := fun _ => S.Fresh .behind) (agree_unexpected _) fun _ => hread
    · exact hread
  · exact .then (agree_expect hf) fun _ => .plain _

/-- What follows the sources of stop words is left alone by both runs. -/
theorem agree_furtherStopWords (hf : ¬S.Drops .fullText) :
    S.Agree False (S.Near .behind) furtherStopWords furtherStopWords .plain fun _ => S.Near .behind := by
  refine .then agree_mark fun place => .then (.frame (agree_eatFirst hf (by decide))) fun combine => ?_
  refine .ite (fun _ => .pure rfl Iff.rfl fun _ _ h => h.1) fun _ => ?_
  refine .then (.frame (fresh_eat hf)) ?_
  rintro (_ | _)
  · refine .then (.frame (fresh_eat hf)) ?_
    rintro (_ | _)
    · exact .then (agree_restore place) fun _ => .plain _
    · refine .pre (.settle (.then (pairs_stopWordList hf .behind) fun _ => .plain _)) fun _ _ h => h.1
  · refine .pre ?_ fun _ _ h => h.1
    exact .then (agree_capturedString 0) fun _ => .settle (.plain _)

theorem pairs_firstStopWords (hf : ¬S.Drops .fullText) :
    S.Pairs .plain firstStopWords firstStopWords := by
  refine fun t => agree_ifEat hf (.plain _) (agree_ifReads hf ?_ (agree_ifEat hf ?_ (.plain _)))
  · exact .then (agree_capturedString 0) fun _ => .settle (.plain _)
  · exact .then (pairs_stopWordList hf t) fun _ => .plain _

theorem agree_stopWordOption (hf : ¬S.Drops .fullText) :
    S.Agree False (S.Near .behind) stopWordOption stopWordOption .plain fun _ => S.Near .behind := by
  refine agree_ifEat hf (.plain _) (.then (pairs_firstStopWords hf _) ?_)
  rintro (_ | words)
  · exact .plain _
  · exact .then (agree_manyPlain (agree_furtherStopWords hf)) fun _ => .plain _

theorem agree_matchOption (hf : ¬S.Drops .fullText) (ho : S.offset.like o o') :
    S.Agree False (S.Near .behind) (matchOption o) (matchOption o') S.matchOption
      fun _ => S.Near .behind := by
  refine .andThen (agree_eatLike (L := S.matchOption) (by decide) hf ?_) ?_
  · simp [Comparison.matchOption, Likeness.moving, FtMatchOption.moved]
  rintro _ _ (hoption | _)
  · exact .give hoption (by simp)
  refine .shows (K := False) (agree_ifReads hf ?_ (agree_ifReads hf ?_ (agree_ifEat hf (.give rfl (by simp))
    (agree_ifEat hf ?_ (.then (agree_stopWordOption hf) ?_))))) (by simp)
  · exact .then (agree_capturedString 0) fun _ => .settle (.give rfl (by simp))
  · refine .then (agree_capturedQualifiedName 0) fun name => .then (agree_capturedString 1) fun value => ?_
    exact .settle (.then (pairs_plainName ho name _) fun _ => .give rfl (by simp))
  · exact .seq (pairs_thesaurusOption hf _) fun value value' hv => .give (congrArg FtMatchOption.thesaurus hv) (by simp)
  · rintro (_ | words)
    · exact agree_unexpected _
    · exact .give rfl (by simp)

theorem pairs_addMatchOption (hf : ¬S.Drops .fullText) {options options' : FtMatchOptions}
    (h : S.matchOptions.like options options') :
    S.Pairs (.sum S.matchOptions S.matchOptions) (addMatchOption options) (addMatchOption options') := by
  refine fun t => agree_ifReads hf ?_ (.give h (by simp))
  refine .settle (t := .behind) (.seq (pairs_nextOffset _) fun o o' ho => ?_)
  refine .seq (agree_matchOption hf ho) fun option option' hoption => ?_
  have hgiven : option.isGiven options = option'.isGiven options' := by
    rw [← option.isGiven_moved (f := S.left), ← option'.isGiven_moved (f := S.right),
      show option.moved S.left = _ from hoption, show options.moved S.left = _ from h]
  have hlabel : option.label = option'.label := by
    rw [← option.label_moved (f := S.left), ← option'.label_moved (f := S.right),
      show option.moved S.left = _ from hoption]
  have hlike : S.matchOptions.like (option.addTo options) (option'.addTo options') := by
    change FtMatchOptions.moved _ _ = FtMatchOptions.moved _ _
    rw [← FtMatchOption.addTo_moved, ← FtMatchOption.addTo_moved,
      show option.moved S.left = _ from hoption, show options.moved S.left = _ from h]
  rw [hgiven, hlabel]
  exact agree_recordIf ho (.pure hlike (by simp) fun _ _ h => h.behind)

theorem pairs_matchOptions (hf : ¬S.Drops .fullText) :
    S.Pairs S.matchOptions matchOptions matchOptions := by
  intro t
  have hloop := agree_iterate (t := t) (L := S.matchOptions) (fun options options' h =>
    pairs_addMatchOption hf h t) (rfl : S.matchOptions.like .empty .empty)
  exact hloop

/-! ### Selections -/

theorem pairs_ftUnit (hf : ¬S.Drops .fullText) : S.Pairs .plain ftUnit ftUnit := by
  refine fun t => .then (agree_eatFirst hf (by decide)) ?_
  rintro (_ | unit)
  · exact agree_unexpected _
  · exact .plain unit

theorem pairs_ftBigUnit (hf : ¬S.Drops .fullText) : S.Pairs .plain ftBigUnit ftBigUnit := by
  refine fun t => .then (agree_eatFirst hf (by decide)) ?_
  rintro (_ | unit)
  · exact agree_unexpected _
  · exact .plain unit

theorem pairs_ftAnyAll (hf : ¬S.Drops .fullText) : S.Pairs .plain ftAnyAll ftAnyAll :=
  fun _ => .then (agree_eatFirst hf (by decide)) fun _ => .plain _

section

variable {single single' additive additive' : Parser Expr}

theorem pairs_ftRange (hf : ¬S.Drops .fullText) (ha : S.Pairs S.expr additive additive') :
    S.Pairs S.ftRange (ftRange additive) (ftRange additive') := by
  refine fun t => agree_ifEat hf ?_ (agree_ifEat hf ?_ (agree_ifEat hf ?_ (agree_ifEat hf ?_
    (agree_unexpected _))))
  · exact .andThen (ha t) fun e e' he => .give (congrArg FtRange.exactly he) (by simp [FtRange.children])
  · exact .andThen (ha t) fun e e' he => .give (congrArg FtRange.atLeast he) (by simp [FtRange.children])
  · exact .andThen (ha t) fun e e' he => .give (congrArg FtRange.atMost he) (by simp [FtRange.children])
  · refine .andThen (ha t) fun low low' hl => .then (agree_expect hf) fun _ => ?_
    exact .bind (ha t) fun high high' hh =>
      .give (congrArg₂ FtRange.fromTo hl hh) (by simp [FtRange.children])

theorem pairs_ftPosFilter (hf : ¬S.Drops .fullText) (ha : S.Pairs S.expr additive additive') :
    S.Pairs S.ftPosFilter.option (ftPosFilter additive) (ftPosFilter additive') := by
  refine fun t => agree_ifEat hf ?_ (agree_ifEat hf ?_ (agree_ifEat hf ?_ (agree_ifEat hf ?_ (agree_ifEat hf ?_
    (agree_eatLike (by decide) hf ?_)))))
  · exact .give (.some rfl) (by simp [FtPosFilter.children])
  · refine .andThen (ha t) fun size size' hs => .then (pairs_ftUnit hf t) fun unit => ?_
    exact .give (.some (congrArg (FtPosFilter.window · unit) hs)) (by simp [FtPosFilter.children])
  · refine .andThen (pairs_ftRange hf ha t) fun range range' hr => .then (pairs_ftUnit hf t) fun unit => ?_
    exact .give (.some (congrArg (FtPosFilter.distance · unit) hr)) (by simp [FtPosFilter.children])
  · exact .then (pairs_ftBigUnit hf t) fun _ => .give (.some rfl) (by simp [FtPosFilter.children])
  · exact .then (pairs_ftBigUnit hf t) fun _ => .give (.some rfl) (by simp [FtPosFilter.children])
  · simp [Comparison.ftPosFilter, Likeness.moving, FtPosFilter.map, FtPosFilter.children]

theorem pairs_ftTimes (hf : ¬S.Drops .fullText) (ha : S.Pairs S.expr additive additive') :
    S.Pairs S.ftRange.option (ftTimes additive) (ftTimes additive') := by
  refine fun t => agree_whenEats hf (fun t => ?_)
  refine .andThen (pairs_ftRange hf ha t) fun range range' hr => ?_
  exact .then (agree_expect hf) fun _ => .give hr Iff.rfl

theorem pairs_ftWords (hf : ¬S.Drops .fullText) (h : S.Pairs S.expr single single')
    (ha : S.Pairs S.expr additive additive') :
    S.Pairs S.ftSelection (ftWords single additive) (ftWords single' additive') := by
  refine fun t => agree_ifReads hf ?_ (agree_ifEat S.core_kept ?_ (agree_unexpected _))
  · refine .then (agree_capturedString 0) fun text => .settle (t := t) (.then (pairs_ftAnyAll hf t) ?_)
    refine fun mode => .andThen (pairs_ftTimes hf ha t) fun times times' ht => ?_
    refine .give ?_ (by simp [FtSelection.children])
    change FtSelection.map _ _ _ = FtSelection.map _ _ _
    rw [FtSelection.map, FtSelection.map, option_map_of_like ht]
  · refine .andThen (pairs_expr h t) fun e e' he => .then (agree_expect S.core_kept) fun _ => ?_
    refine .then (pairs_ftAnyAll hf t) fun mode => .bind (pairs_ftTimes hf ha t) fun times times' ht => ?_
    refine .give ?_ (by simp [FtSelection.children])
    change FtSelection.map _ _ _ = FtSelection.map _ _ _
    rw [FtSelection.map, FtSelection.map, show Expr.moved S.left e = _ from he, option_map_of_like ht]

variable {selection selection' : Parser (FtSelection Expr)}

theorem pairs_ftPrimary (hf : ¬S.Drops .fullText) (h : S.Pairs S.expr single single')
    (ha : S.Pairs S.expr additive additive') (hs : S.Pairs S.ftSelection selection selection') :
    S.Pairs S.ftSelection (ftPrimary single additive selection)
      (ftPrimary single' additive' selection') := by
  refine fun t => agree_ifPeek rfl (.pre ?_ fun _ _ h => h.1) (agree_ifEat hf ?_ (pairs_ftWords hf h ha t))
  · refine .seq (agree_pragmas t) ?_
    rintro ⟨ps, _⟩ ⟨_, _⟩ ⟨rfl, -⟩
    refine .then (fresh_expect S.core_kept) fun _ => .settle (t := t) (agree_ifEat S.core_kept ?_ ?_)
    · refine .give ?_ (by simp [FtSelection.children])
      change FtSelection.map _ _ _ = FtSelection.map _ _ _
      rw [FtSelection.map, FtSelection.map]
    · refine .andThen (hs t) fun inner inner' hi => .then (agree_expect S.core_kept) fun _ => ?_
      refine .give ?_ (by simp [FtSelection.children])
      change FtSelection.map _ _ _ = FtSelection.map _ _ _
      rw [FtSelection.map, FtSelection.map, show inner.map _ _ = _ from hi]
  · refine .andThen (hs t) fun inner inner' hi => ?_
    exact .then (agree_expect S.core_kept) fun _ => .give hi Iff.rfl

theorem pairs_ftPrimaryWithOptions (hf : ¬S.Drops .fullText) (h : S.Pairs S.expr single single')
    (ha : S.Pairs S.expr additive additive') (hs : S.Pairs S.ftSelection selection selection') :
    S.Pairs S.ftSelection (ftPrimaryWithOptions single additive selection)
      (ftPrimaryWithOptions single' additive' selection') := by
  refine fun t => .andThen (pairs_ftPrimary hf h ha hs t) fun primary primary' hp => ?_
  refine .seq (pairs_matchOptions hf t) fun options options' ho => ?_
  refine .bind (agree_whenEats hf (pairs_bracedExpr h)) fun weight weight' hw => ?_
  have hempty : options.isEmpty = options'.isEmpty := by
    rw [← options.isEmpty_moved (f := S.left), ← options'.isEmpty_moved (f := S.right),
      show options.moved S.left = _ from ho]
  rw [hempty, isNone_of_like hw]
  refine .ite (fun hc => .give hp ?_) fun _ => .give ?_ (by simp [FtSelection.children])
  · cases weight with
    | none => simp
    | some _ => simp at hc
  · change FtSelection.map _ _ _ = FtSelection.map _ _ _
    rw [FtSelection.map, FtSelection.map, show primary.map _ _ = _ from hp,
      show options.moved S.left = _ from ho, option_map_of_like hw]

theorem pairs_ftUnaryNot (hf : ¬S.Drops .fullText) (h : S.Pairs S.expr single single')
    (ha : S.Pairs S.expr additive additive') (hs : S.Pairs S.ftSelection selection selection') :
    S.Pairs S.ftSelection (ftUnaryNot single additive selection)
      (ftUnaryNot single' additive' selection') := by
  refine fun t => agree_ifEat hf ?_ (pairs_ftPrimaryWithOptions hf h ha hs t)
  refine .andThen (pairs_ftPrimaryWithOptions hf h ha hs t) fun operand operand' ho => ?_
  refine .give ?_ (by simp [FtSelection.children])
  change FtSelection.map _ _ _ = FtSelection.map _ _ _
  rw [FtSelection.map, FtSelection.map, show operand.map _ _ = _ from ho]

/-- Selections joined by one connective. -/
theorem pairs_ftJoined (hf : ¬S.Drops .fullText) {operand operand' : Parser (FtSelection Expr)}
    (h : S.Pairs S.ftSelection operand operand') {r : Rule} (hr : r.extension = .fullText)
    {wrap : List (FtSelection Expr) → FtSelection Expr}
    (hlike : ∀ {operands operands'}, S.ftSelection.list.like operands operands' →
      S.ftSelection.like (wrap operands) (wrap operands'))
    (howes : ∀ operands, S.ftSelection.owes (wrap operands) ↔ S.ftSelection.list.owes operands) :
    S.Pairs S.ftSelection (ftChain wrap <$> separatedBy r operand)
      (ftChain wrap <$> separatedBy r operand') :=
  fun _ => (agree_separatedBy (hr ▸ hf) h).map (fun _ _ h => like_ftChain hlike h)
    (fun _ => owes_ftChain howes _) fun _ _ _ h => h

theorem pairs_ftMildNot (hf : ¬S.Drops .fullText) (h : S.Pairs S.expr single single')
    (ha : S.Pairs S.expr additive additive') (hs : S.Pairs S.ftSelection selection selection') :
    S.Pairs S.ftSelection (ftMildNot single additive selection)
      (ftMildNot single' additive' selection') := by
  refine pairs_ftJoined hf (pairs_ftUnaryNot hf h ha hs) rfl (fun hl => ?_) fun operands => ?_
  · change FtSelection.map _ _ _ = FtSelection.map _ _ _
    rw [FtSelection.map, FtSelection.map]
    exact congrArg FtSelection.mildNot (map_of_like hl)
  · simp [FtSelection.children]

theorem pairs_ftAnd (hf : ¬S.Drops .fullText) (h : S.Pairs S.expr single single')
    (ha : S.Pairs S.expr additive additive') (hs : S.Pairs S.ftSelection selection selection') :
    S.Pairs S.ftSelection (ftAnd single additive selection) (ftAnd single' additive' selection') := by
  refine pairs_ftJoined hf (pairs_ftMildNot hf h ha hs) rfl (fun hl => ?_) fun operands => ?_
  · change FtSelection.map _ _ _ = FtSelection.map _ _ _
    rw [FtSelection.map, FtSelection.map]
    exact congrArg FtSelection.and (map_of_like hl)
  · simp [FtSelection.children]

theorem pairs_ftOr (hf : ¬S.Drops .fullText) (h : S.Pairs S.expr single single')
    (ha : S.Pairs S.expr additive additive') (hs : S.Pairs S.ftSelection selection selection') :
    S.Pairs S.ftSelection (ftOr single additive selection) (ftOr single' additive' selection') := by
  refine pairs_ftJoined hf (pairs_ftAnd hf h ha hs) rfl (fun hl => ?_) fun operands => ?_
  · change FtSelection.map _ _ _ = FtSelection.map _ _ _
    rw [FtSelection.map, FtSelection.map]
    exact congrArg FtSelection.or (map_of_like hl)
  · simp [FtSelection.children]

theorem pairs_ftFiltered (hf : ¬S.Drops .fullText) (h : S.Pairs S.expr single single')
    (ha : S.Pairs S.expr additive additive') (hs : S.Pairs S.ftSelection selection selection') :
    S.Pairs S.ftSelection (ftFiltered single additive selection)
      (ftFiltered single' additive' selection') := by
  refine fun t => .andThen (pairs_ftOr hf h ha hs t) fun inner inner' hi => ?_
  refine .bind (agree_many (pairs_ftPosFilter hf ha t)) fun filters filters' hfilters => ?_
  cases hfilters with
  | nil => exact .give hi (by simp)
  | cons ha has =>
    refine .give ?_ (by simp [FtSelection.children])
    change FtSelection.map _ _ _ = FtSelection.map _ _ _
    rw [FtSelection.map, FtSelection.map, show inner.map _ _ = _ from hi, map_of_like (.cons ha has)]

theorem pairs_ftSelectionWithin (hf : ¬S.Drops .fullText) (h : S.Pairs S.expr single single')
    (ha : S.Pairs S.expr additive additive') {n n' : Nat} (hn : S.rounds.like n n') :
    S.Pairs S.ftSelection (ftSelectionWithin single additive n)
      (ftSelectionWithin single' additive' n') := by
  induction n generalizing n' with
  | zero => exact fun _ => agree_zero (ftSelectionWithin single' additive') hn rfl
  | succ n ih =>
    obtain ⟨m, rfl, hm⟩ := rounds_succ hn
    exact pairs_nested (pairs_ftFiltered hf h ha (ih hm))

theorem pairs_ftSelection (hf : ¬S.Drops .fullText) (h : S.Pairs S.expr single single')
    (ha : S.Pairs S.expr additive additive') :
    S.Pairs S.ftSelection (ftSelection single additive) (ftSelection single' additive') :=
  fun t => .look (L := S.rounds) (fun _ _ h => rounds_like h) fun _ _ hn =>
    pairs_ftSelectionWithin hf h ha hn t

end

end Grammar

end XQuerySyntax
