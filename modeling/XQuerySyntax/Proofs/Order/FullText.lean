import XQuerySyntax.Grammar.FullText
import XQuerySyntax.Proofs.Order.Clause
import XQuerySyntax.Proofs.Tree.FullText

/-! Full-text searches in order. Besides the expressions in a selection, the constants in its match
options have places. -/

namespace XQuerySyntax

/-- A match option whose constants are behind a place. -/
def FtMatchOption.Behind (b : Nat) : FtMatchOption → Prop
  | .thesaurus value => ∀ k ∈ value.constants, b ≤ k.offset
  | _ => True

theorem FtMatchOption.Behind.addTo {b : Nat} {options : FtMatchOptions} {option : FtMatchOption}
    (ho : ∀ k ∈ options.constants, b ≤ k.offset) (h : option.Behind b) :
    ∀ k ∈ (option.addTo options).constants, b ≤ k.offset := by
  cases option with
  | thesaurus value =>
    have hconstants : (FtMatchOption.addTo options (.thesaurus value)).constants = value.constants :=
      List.append_nil _
    rwa [hconstants]
  | _ => exact ho

/-- A selection whose expressions and constants are behind a place. -/
structure FtSelection.InOrder (b : Nat) (s : FtSelection Expr) : Prop where
  children : InOrderAll b s.children
  constants : ∀ options ∈ s.matchOptions, ∀ c ∈ options.constants, b ≤ c.offset

theorem Connective.inOrder {b : Nat} {wrap : List (FtSelection Expr) → FtSelection Expr}
    (hw : Connective wrap) {operands : List (FtSelection Expr)} (h : ∀ s ∈ operands, s.InOrder b) :
    (wrap operands).InOrder b where
  children := by
    rw [hw.children]
    exact List.forall_mem_flatMap.2 fun s hs => (h s hs).children
  constants := by
    rw [hw.matchOptions]
    exact List.forall_mem_flatMap.2 fun s hs => (h s hs).constants

namespace Order

open XQuerySyntax.Parser XQuerySyntax.Grammar

variable {n b : Nat} {single additive : Parser Expr} {offset : Nat}

/-! ### Match options -/

/-- A constant stands where its token stands. -/
theorem leads_capturedConstant (i : Nat) :
    Leads (Matcher.Took n b) (capturedConstant i) fun k m => b ≤ k.offset ∧ m.Took n b := by
  refine (still_observe _).bind fun _ s hs => ?_
  exact ⟨hs.start, hs⟩

theorem keeps_thesaurusLevels : Keeps n b thesaurusLevels fun found =>
    ∀ k ∈ found.toList.flatMap FtRange.children, b ≤ k.offset := by
  have hone (form : LiteralNode → FtRange LiteralNode) (hf : ∀ k, (form k).children = [k]) :
      Leads (Matcher.Took n b) (do return some (form (← capturedConstant 0))) fun found m =>
        (∀ k ∈ found.toList.flatMap FtRange.children, b ≤ k.offset) ∧ m.Behind n b := by
    refine Leads.bind (leads_capturedConstant 0) fun k => leads_pure fun m hm => ⟨?_, hm.2.past⟩
    rw [Option.toList_some, List.flatMap_singleton, hf]
    exact List.forall_mem_singleton.2 hm.1
  refine leads_ifEat (by rfl) (hone .exactly fun _ => rfl)
    (leads_ifEat (by rfl) (hone .atLeast fun _ => rfl)
    (leads_ifEat (by rfl) (hone .atMost fun _ => rfl)
    (leads_ifEat (by rfl) ?_ (keeps_pure (List.forall_mem_nil _)))))
  refine Leads.bind (leads_capturedConstant 0) fun low => leads_of_and fun hlow => ?_
  refine Leads.bind (leads_capturedConstant 1) fun high => leads_pure fun m hm => ⟨?_, hm.2.past⟩
  refine List.forall_mem_flatMap.2 (List.forall_mem_singleton.2 ?_)
  exact List.forall_mem_cons.2 ⟨hlow, List.forall_mem_singleton.2 hm.1⟩

theorem keeps_thesaurusId : Keeps n b thesaurusId fun id =>
    ∀ k ∈ id.levels.toList.flatMap FtRange.children, b ≤ k.offset := by
  refine (passes_expect _).bind fun _ => (passes_observe _).bind fun location => ?_
  refine (passes_whenEats (passes_observe _)).bind fun relationship => ?_
  refine keeps_thesaurusLevels.bind fun levels hl => leads_ite (fun _ => ?_) fun _ => keeps_pure hl
  exact (passes_expect _).bind fun _ => keeps_pure hl

theorem keeps_thesaurus : Keeps n b thesaurus fun found =>
    ∀ id ∈ found, ∀ k ∈ id.levels.toList.flatMap FtRange.children, b ≤ k.offset :=
  leads_ifEatStay keeps_none keeps_thesaurusId.some

theorem keeps_thesaurusOption : Keeps n b thesaurusOption fun t => ∀ k ∈ t.constants, b ≤ k.offset := by
  have hend (thesauri : List (Option FtThesaurusId))
      (h : ∀ found ∈ thesauri, ∀ id ∈ found,
        ∀ k ∈ id.levels.toList.flatMap FtRange.children, b ≤ k.offset) : Keeps n b (do
        goto .operator
        return FtThesaurusOption.mk true (thesauri.any Option.isNone) (thesauri.filterMap id))
        fun t => ∀ k ∈ t.constants, b ≤ k.offset := by
    refine (passes_goto _).bind fun _ => keeps_pure (List.forall_mem_flatMap.2 fun id hid => ?_)
    obtain ⟨_, hmem, rfl⟩ := List.mem_filterMap.1 hid
    exact h _ hmem id rfl
  refine leads_ifEatStay ?_ ?_
  · refine (keeps_separatedBy keeps_thesaurus).bind fun thesauri ht => ?_
    exact (passes_expect _).bind fun _ => hend thesauri ht
  · exact (keeps_thesaurus.map _ fun _ h => List.forall_mem_singleton.2 h).bind hend

theorem passes_stopWordList : Passes stopWordList := by
  have hword : Passes (do
      if !(← eat Terminal.ftListString) then unexpected "a string literal"
      capturedString 0) :=
    (passes_eat _).seq fun _ => passes_ite (fun _ _ => leads_unexpected_bind _) (passes_observe _)
  exact (passes_separatedBy hword).seq fun _ => (passes_expect _).seq fun _ => passes_pure _

theorem passes_furtherStopWords : Passes furtherStopWords := by
  refine fun n b => leads_mark_bind fun place hplace => (passes_eatFirst _).bind ?_
  rintro (_ | combine)
  · exact passes_pure _ n b
  · refine leads_ifEatStay ?_ (leads_ifEatStay ?_ ?_)
    · exact (passes_observe _).bind fun _ => passes_pure _ n b
    · exact passes_stopWordList.bind fun _ => passes_pure _ n b
    · exact Leads.bind (leads_restore hplace) fun _ => passes_pure _ n b

theorem passes_stopWordOption : Passes stopWordOption := by
  have hfirst : Passes firstStopWords := by
    refine passes_ifEat (passes_pure _) (passes_ifEat ?_ (passes_ifEat ?_ (passes_pure _)))
    · exact (passes_observe _).seq fun _ => passes_pure _
    · exact passes_stopWordList.seq fun _ => passes_pure _
  refine passes_ifEat (passes_pure _) (hfirst.seq ?_)
  rintro (_ | words)
  · exact passes_pure _
  · exact (passes_many passes_furtherStopWords).seq fun _ => passes_pure _

theorem keeps_matchOption (offset : Nat) : Keeps n b (matchOption offset) (FtMatchOption.Behind b) := by
  have hplain (table : List (Rule × FtMatchOption)) (h : ∀ x ∈ table, x.2.Behind b) :
      Keeps n b (eatFirst table) fun found => ∀ option ∈ found, option.Behind b := keeps_eatFirst h
  refine (hplain _ (by simp [FtMatchOption.Behind])).bind ?_
  rintro (_ | option) hoption
  · refine leads_ifEatStay ?_ (leads_ifEatStay ?_ (leads_ifEatStay (keeps_pure (List.forall_mem_nil _))
      (leads_ifEatStay ?_ (passes_stopWordOption.bind ?_))))
    · exact (passes_observe _).bind fun _ => keeps_pure trivial
    · refine (passes_observe _).bind fun name => (passes_observe _).bind fun value => ?_
      exact (passes_plainName name offset).bind fun _ => keeps_pure trivial
    · exact keeps_thesaurusOption.bind fun _ ht => keeps_pure ht
    · rintro (_ | words)
      · exact leads_unexpected _
      · exact keeps_pure trivial
  · exact keeps_pure (hoption option rfl)

theorem keeps_matchOptions : Keeps n b matchOptions fun options => ∀ k ∈ options.constants, b ≤ k.offset := by
  have hstep (options : FtMatchOptions) (ho : ∀ k ∈ options.constants, b ≤ k.offset) :
      Keeps n b (addMatchOption options) (Sum.elim (fun options => ∀ k ∈ options.constants, b ≤ k.offset)
        fun options => ∀ k ∈ options.constants, b ≤ k.offset) := by
    refine leads_ifEatStay ((passes_observe _).bind fun offset => ?_) (keeps_pure ho)
    refine (keeps_matchOption offset).bind fun option hoption => leads_ite (fun _ => ?_) fun _ => ?_
    · exact (passes_record _ _ _).bind fun _ => keeps_pure (hoption.addTo ho)
    · exact keeps_pure (hoption.addTo ho)
  exact keeps_iterate hstep (List.forall_mem_nil _)

/-! ### Selections -/

theorem passes_ftUnit : Passes ftUnit := by
  refine (passes_eatFirst _).seq ?_
  rintro (_ | unit)
  · exact passes_unexpected _
  · exact passes_pure _

theorem passes_ftBigUnit : Passes ftBigUnit := by
  refine (passes_eatFirst _).seq ?_
  rintro (_ | unit)
  · exact passes_unexpected _
  · exact passes_pure _

theorem passes_ftAnyAll : Passes ftAnyAll := (passes_eatFirst _).seq fun _ => passes_pure _

theorem keeps_ftRange (h : Builds additive) :
    Keeps n b (ftRange additive) fun r => InOrderAll b r.children := by
  have hone (form : Expr → FtRange Expr) (hf : ∀ e, (form e).children = [e]) :
      Keeps n b (do return form (← additive)) fun r => InOrderAll b r.children := by
    refine h.keeps.bind fun e he => keeps_pure ?_
    rw [hf]
    exact List.forall_mem_singleton.2 he
  refine leads_ifEatStay (hone .exactly fun _ => rfl) (leads_ifEatStay (hone .atLeast fun _ => rfl)
    (leads_ifEatStay (hone .atMost fun _ => rfl) (leads_ifEatStay ?_ (leads_unexpected _))))
  refine h.keeps.bind fun low hlow => (passes_expect _).bind fun _ => h.keeps.bind fun high hh => ?_
  exact keeps_pure (List.forall_mem_cons.2 ⟨hlow, List.forall_mem_singleton.2 hh⟩)

theorem keeps_ftPosFilter (h : Builds additive) :
    Keeps n b (ftPosFilter additive) fun found => ∀ f ∈ found, InOrderAll b f.children := by
  refine leads_ifEatStay (keeps_someOf (List.forall_mem_nil _)) (leads_ifEatStay ?_ (leads_ifEatStay ?_
    (leads_ifEatStay ?_ (leads_ifEatStay ?_ (keeps_eatFirst ?_)))))
  · refine h.keeps.bind fun size hsize => passes_ftUnit.bind fun _ => ?_
    exact keeps_someOf (List.forall_mem_singleton.2 hsize)
  · exact (keeps_ftRange h).bind fun range hr => passes_ftUnit.bind fun _ => keeps_someOf hr
  · exact passes_ftBigUnit.bind fun _ => keeps_someOf (List.forall_mem_nil _)
  · exact passes_ftBigUnit.bind fun _ => keeps_someOf (List.forall_mem_nil _)
  · simp [FtPosFilter.children, InOrderAll]

theorem keeps_ftTimes (h : Builds additive) :
    Keeps n b (ftTimes additive) fun found => InOrderAll b (found.toList.flatMap FtRange.children) := by
  have htimes : Keeps n b (ftTimes additive) fun found => ∀ r ∈ found, InOrderAll b r.children :=
    keeps_whenEats ((keeps_ftRange h).bind fun range hr => (passes_expect _).bind fun _ => keeps_pure hr)
  exact htimes.weaken fun found m hm => ⟨List.forall_mem_flatMap.2 (forall_mem_toList.2 hm.1), hm.2⟩

theorem keeps_ftWords (hs : Builds single) (h : Builds additive) :
    Keeps n b (ftWords single additive) (FtSelection.InOrder b) := by
  refine leads_ifEatStay ?_ (leads_ifEatStay ?_ (leads_unexpected _))
  · refine (passes_observe _).bind fun text => passes_ftAnyAll.bind fun mode => ?_
    refine (keeps_ftTimes h).bind fun times ht => keeps_pure ⟨?_, ?_⟩
    · rw [FtSelection.children]
      exact ht
    · rw [FtSelection.matchOptions]
      exact List.forall_mem_nil _
  · refine (builds_expr hs).keeps.bind fun e he => (passes_expect _).bind fun _ => ?_
    refine passes_ftAnyAll.bind fun mode => (keeps_ftTimes h).bind fun times ht => keeps_pure ⟨?_, ?_⟩
    · rw [FtSelection.children]
      exact List.forall_mem_cons.2 ⟨he, ht⟩
    · rw [FtSelection.matchOptions]
      exact List.forall_mem_nil _

section

variable {selection : Parser (FtSelection Expr)}

theorem keeps_ftPrimary (hs : Builds single) (h : Builds additive)
    (hi : Keeps n b selection (FtSelection.InOrder b)) :
    Keeps n b (ftPrimary single additive selection) (FtSelection.InOrder b) := by
  refine leads_ifPeek (passes_pragmas.bind fun ⟨ps, _⟩ => ?_)
    (leads_ifEatStay (hi.bind fun inner hinner => ?_) (keeps_ftWords hs h))
  · refine (passes_expect _).bind fun _ => leads_ifEatStay (keeps_pure ⟨?_, ?_⟩)
      (hi.bind fun inner hinner => (passes_expect _).bind fun _ => keeps_pure ⟨?_, ?_⟩)
    · rw [FtSelection.children]
      exact List.forall_mem_nil _
    · rw [FtSelection.matchOptions]
      exact List.forall_mem_nil _
    · rw [FtSelection.children]
      exact hinner.children
    · rw [FtSelection.matchOptions]
      exact hinner.constants
  · exact (passes_expect _).bind fun _ => keeps_pure hinner

theorem keeps_ftPrimaryWithOptions (hs : Builds single) (h : Builds additive)
    (hi : Keeps n b selection (FtSelection.InOrder b)) :
    Keeps n b (ftPrimaryWithOptions single additive selection) (FtSelection.InOrder b) := by
  refine (keeps_ftPrimary hs h hi).bind fun primary hp => keeps_matchOptions.bind fun options hm => ?_
  refine (keeps_whenEats (builds_bracedExpr hs).keeps).bind fun weight hw => ?_
  refine leads_ite (fun _ => keeps_pure hp) fun _ => keeps_pure ⟨?_, ?_⟩
  · rw [FtSelection.children]
    exact List.forall_mem_append.2 ⟨hp.children, forall_mem_toList.2 hw⟩
  · rw [FtSelection.matchOptions]
    exact List.forall_mem_cons.2 ⟨hm, hp.constants⟩

theorem keeps_ftUnaryNot (hs : Builds single) (h : Builds additive)
    (hi : Keeps n b selection (FtSelection.InOrder b)) :
    Keeps n b (ftUnaryNot single additive selection) (FtSelection.InOrder b) := by
  have hp := keeps_ftPrimaryWithOptions hs h hi
  refine leads_ifEatStay (hp.bind fun operand ho => keeps_pure ⟨?_, ?_⟩) hp
  · rw [FtSelection.children]
    exact ho.children
  · rw [FtSelection.matchOptions]
    exact ho.constants

theorem keeps_ftChain {p : Parser (FtSelection Expr)} (h : Keeps n b p (FtSelection.InOrder b)) (r : Rule)
    {wrap : List (FtSelection Expr) → FtSelection Expr} (hw : Connective wrap) :
    Keeps n b (ftChain wrap <$> separatedBy r p) (FtSelection.InOrder b) := by
  refine (keeps_separatedBy h).map _ fun operands hall => ?_
  match operands with
  | [] => exact hw.inOrder hall
  | [operand] => exact List.forall_mem_singleton.1 hall
  | _ :: _ :: _ => exact hw.inOrder hall

theorem keeps_ftFiltered (hs : Builds single) (h : Builds additive)
    (hi : Keeps n b selection (FtSelection.InOrder b)) :
    Keeps n b (ftFiltered single additive selection) (FtSelection.InOrder b) := by
  have hmild : Keeps n b (ftMildNot single additive selection) (FtSelection.InOrder b) :=
    keeps_ftChain (keeps_ftUnaryNot hs h hi) _ connective_mildNot
  have hand : Keeps n b (ftAnd single additive selection) (FtSelection.InOrder b) :=
    keeps_ftChain hmild _ connective_and
  have hor : Keeps n b (ftOr single additive selection) (FtSelection.InOrder b) :=
    keeps_ftChain hand _ connective_or
  refine hor.bind fun inner hinner => (keeps_many (keeps_ftPosFilter h)).bind ?_
  rintro (_ | ⟨filter, filters⟩) hf
  · exact keeps_pure hinner
  · refine keeps_pure ⟨?_, ?_⟩
    · rw [FtSelection.children]
      exact List.forall_mem_append.2 ⟨hinner.children, List.forall_mem_flatMap.2 hf⟩
    · rw [FtSelection.matchOptions]
      exact hinner.constants

end

theorem keeps_ftSelection (hs : Builds single) (h : Builds additive) :
    Keeps n b (ftSelection single additive) (FtSelection.InOrder b) := by
  have hwithin (steps : Nat) :
      Keeps n b (ftSelectionWithin single additive steps) (FtSelection.InOrder b) := by
    induction steps with
    | zero => exact leads_exhausted
    | succ steps ih => exact leads_nested (keeps_ftFiltered hs h ih)
  exact still_get.bind fun _ => hwithin _

end Order

end XQuerySyntax
