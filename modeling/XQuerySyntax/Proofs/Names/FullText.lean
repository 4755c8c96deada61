import XQuerySyntax.Grammar.FullText
import XQuerySyntax.Proofs.Names.Clause

/-! Accounts of full-text selections. Of the match options only the extensions have names, and these are
never replaced by later ones. -/

namespace XQuerySyntax

/-- The name of a match option, if it is an extension. -/
def FtMatchOption.unbound : FtMatchOption → List String
  | extension name _ => name.unbound
  | letterCase _ | diacritics _ | stemming _ | wildcards _ | language _ | thesaurus _ | stopWords _ => []

theorem FtMatchOption.unbound_addTo (o : FtMatchOptions) (option : FtMatchOption) :
    (option.addTo o).unbound = o.unbound ++ option.unbound := by
  cases option <;> simp [addTo, FtMatchOptions.unbound, unbound]

theorem FtMatchOptions.unbound_of_isEmpty {o : FtMatchOptions} (h : o.isEmpty) : o.unbound = [] := by
  rw [show o = .empty from eq_of_beq h]
  rfl

/-- What a range holds: its bounds. -/
abbrev Stock.bounds : FtRange Expr → Stock := both (fun _ => []) FtRange.children

/-- What a selection holds. -/
abbrev Stock.selected : FtSelection Expr → Stock := both FtSelection.unbound FtSelection.children

namespace Grammar

open XQuerySyntax.Parser

attribute [local simp] FtSelection.unbound FtSelection.children

variable {single additive : Parser Expr} {t : Stock}

/-! ### Match options -/

theorem quiet_capturedConstant (i : Nat) : Quiet (capturedConstant i) :=
  (quiet_observe _).seq fun _ => (quiet_observe _).seq fun _ => quiet_get.seq fun _ => quiet_pure _

theorem quiet_thesaurusLevels : Quiet thesaurusLevels := by
  have hone (form : LiteralNode → FtRange LiteralNode) :
      Quiet (do return some (form (← capturedConstant 0))) :=
    (quiet_capturedConstant 0).seq fun _ => quiet_pure _
  refine fun t => carries_ifEat (hone _ t) (carries_ifEat (hone _ t) (carries_ifEat (hone _ t)
    (carries_ifEat ?_ (quiet_pure _ t))))
  exact (quiet_capturedConstant 0).bind fun _ => (quiet_capturedConstant 1).bind fun _ => quiet_pure _ t

theorem quiet_thesaurusId : Quiet thesaurusId := by
  refine fun t => (quiet_expect _).bind fun _ => ?_
  refine (quiet_observe _).bind fun location => (quiet_whenEats (quiet_observe _)).bind fun _ => ?_
  refine quiet_thesaurusLevels.bind fun levels => carries_ite (fun _ => ?_) fun _ => quiet_pure _ t
  exact (quiet_expect _).bind fun _ => quiet_pure _ t

theorem quiet_thesaurus : Quiet thesaurus :=
  fun t => carries_ifEat (quiet_pure _ t) (quiet_thesaurusId.bind fun _ => quiet_pure _ t)

theorem quiet_thesaurusOption : Quiet thesaurusOption := by
  have hend (thesauri : List (Option FtThesaurusId)) : Quiet (do
      goto .operator
      return FtThesaurusOption.mk true (thesauri.any Option.isNone) (thesauri.filterMap id)) :=
    (quiet_goto _).seq fun _ => quiet_pure _
  refine fun t => carries_ifEat ?_ ?_
  · refine (quiet_separatedBy quiet_thesaurus).bind fun thesauri => ?_
    exact (quiet_expect _).bind fun _ => hend thesauri t
  · have hone : Quiet ((fun found => [found]) <$> thesaurus) := fun t => Contract.map _ (quiet_thesaurus t)
    exact hone.bind fun thesauri => hend thesauri t

theorem quiet_stopWordList : Quiet stopWordList := by
  have hword : Quiet (do
      if !(← eat Terminal.ftListString) then unexpected "a string literal"
      capturedString 0) :=
    fun t => (quiet_eat _).bind fun _ => carries_ite (fun _ => carries_unexpected_bind _)
      fun _ => quiet_observe _ t
  exact (quiet_separatedBy hword).seq fun _ => (quiet_expect _).seq fun _ => quiet_pure _

theorem quiet_furtherStopWords : Quiet furtherStopWords := by
  refine fun t => (quiet_observe _).bind fun place => (quiet_eatFirst _).bind ?_
  rintro (_ | combine)
  · exact quiet_pure _ t
  · refine carries_ifEat ?_ (carries_ifEat ?_ ?_)
    · exact (quiet_observe _).bind fun _ => quiet_pure _ t
    · exact quiet_stopWordList.bind fun _ => quiet_pure _ t
    · exact (quiet_restore place).bind fun _ => quiet_pure _ t

theorem quiet_firstStopWords : Quiet firstStopWords := by
  refine fun t => carries_ifEat (quiet_pure _ t) (carries_ifEat ?_ (carries_ifEat ?_ (quiet_pure _ t)))
  · exact (quiet_observe _).bind fun _ => quiet_pure _ t
  · exact quiet_stopWordList.bind fun _ => quiet_pure _ t

theorem quiet_stopWordOption : Quiet stopWordOption := by
  refine fun t => carries_ifEat (quiet_pure _ t) (quiet_firstStopWords.bind ?_)
  rintro (_ | words)
  · exact quiet_pure _ t
  · exact (quiet_many quiet_furtherStopWords).bind fun _ => quiet_pure _ t

theorem accounts_matchOption (offset : Nat) :
    Accounts (matchOption offset) (.naming FtMatchOption.unbound) := by
  have hquiet {α : Type} {p : Parser α} (hp : Quiet p) {form : α → FtMatchOption}
      (hf : ∀ a, (form a).unbound = []) :
      Accounts (do return form (← p)) (.naming FtMatchOption.unbound) := by
    refine fun t => hp.bind fun a => carries_pure ?_ ?_
    · simp [hf]
    · simp
  refine fun t => (accounts_eatFirst (f := .naming FtMatchOption.unbound) ?_).bind ?_
  · simp only [List.forall_mem_cons]
    exact ⟨rfl, rfl, rfl, rfl, rfl, rfl, rfl, rfl, rfl, rfl, fun _ h => nomatch h⟩
  rintro (_ | option)
  · rw [Stock.maybe_none, Stock.append_empty]
    refine carries_ifEat (hquiet (quiet_observe _) (fun _ => rfl) t) (carries_ifEat ?_
      (carries_ifEat (carries_pure ?_ ?_) (carries_ifEat
        (hquiet quiet_thesaurusOption (fun _ => rfl) t) (quiet_stopWordOption.bind ?_))))
    · refine (quiet_observe _).bind fun name => (quiet_observe _).bind fun value => ?_
      exact (accounts_plainName name offset).bind fun _ => carries_pure rfl rfl
    · simp [FtMatchOption.unbound]
    · simp
    · rintro (_ | words)
      · exact carries_unexpected _
      · exact carries_pure (by simp [FtMatchOption.unbound]) (by simp)
  · exact carries_pure rfl rfl

theorem accounts_matchOptions : Accounts matchOptions (.naming FtMatchOptions.unbound) := by
  refine accounts_iterate (w := .naming FtMatchOptions.unbound) (fun t options => ?_) rfl
  refine carries_ifEat ?_ (fun _ hs => hs)
  refine (quiet_observe _).bind fun offset => (accounts_matchOption offset).bind fun option => ?_
  have hadd : Carries (t ++ .naming FtMatchOptions.unbound options ++ .naming FtMatchOption.unbound option)
      (pure (.inl (option.addTo options))) fun next =>
        t ++ Sum.elim (.naming FtMatchOptions.unbound) (.naming FtMatchOptions.unbound) next := by
    refine carries_pure ?_ ?_
    · simp [FtMatchOption.unbound_addTo]
    · simp
  exact carries_ite (fun _ => (quiet_record (by decide) _ _).bind fun _ => hadd) fun _ => hadd

/-! ### Selections -/

theorem quiet_ftUnit : Quiet ftUnit := by
  refine (quiet_eatFirst _).seq ?_
  rintro (_ | unit)
  · exact quiet_unexpected _
  · exact quiet_pure _

theorem quiet_ftBigUnit : Quiet ftBigUnit := by
  refine (quiet_eatFirst _).seq ?_
  rintro (_ | unit)
  · exact quiet_unexpected _
  · exact quiet_pure _

theorem quiet_ftAnyAll : Quiet ftAnyAll := (quiet_eatFirst _).seq fun _ => quiet_pure _

theorem accounts_ftRange (h : Builds additive) : Accounts (ftRange additive) .bounds := by
  have hone (form : Expr → FtRange Expr) (hf : ∀ e, (form e).children = [e]) :
      Accounts (do return form (← additive)) .bounds := by
    refine fun t => h.bind fun e => carries_pure ?_ ?_
    · simp
    · simp [hf]
  refine fun t => carries_ifEat (hone .exactly (fun _ => rfl) t)
    (carries_ifEat (hone .atLeast (fun _ => rfl) t) (carries_ifEat (hone .atMost (fun _ => rfl) t)
      (carries_ifEat ?_ (carries_unexpected _))))
  refine h.bind fun low => (quiet_expect _).bind fun _ => h.bind fun high => carries_pure ?_ ?_
  · simp
  · simp [FtRange.children]

theorem accounts_ftPosFilter (h : Builds additive) :
    Accounts (ftPosFilter additive) (.maybe (.both (fun _ => []) FtPosFilter.children)) := by
  refine fun t => carries_ifEat (carries_pure ?_ ?_) (carries_ifEat ?_ (carries_ifEat ?_
    (carries_ifEat ?_ (carries_ifEat ?_ (accounts_eatFirst ?_ t)))))
  · simp
  · simp [FtPosFilter.children]
  · refine h.bind fun size => quiet_ftUnit.bind fun _ => carries_pure ?_ ?_
    · simp
    · simp [FtPosFilter.children]
  · refine (accounts_ftRange h).bind fun range => quiet_ftUnit.bind fun _ => carries_pure ?_ ?_
    · simp
    · simp [FtPosFilter.children]
  · exact quiet_ftBigUnit.bind fun _ => carries_pure (by simp) (by simp [FtPosFilter.children])
  · exact quiet_ftBigUnit.bind fun _ => carries_pure (by simp) (by simp [FtPosFilter.children])
  · simp only [List.forall_mem_cons]
    exact ⟨rfl, rfl, rfl, List.forall_mem_nil _⟩

theorem accounts_ftTimes (h : Builds additive) : Accounts (ftTimes additive) (.maybe .bounds) :=
  accounts_whenEats fun _ => (accounts_ftRange h).bind fun _ => (quiet_expect _).bind fun _ =>
    carries_pure rfl rfl

theorem accounts_ftWords (hs : Builds single) (h : Builds additive) :
    Accounts (ftWords single additive) .selected := by
  refine fun t => carries_ifEat ?_ (carries_ifEat ?_ (carries_unexpected _))
  · refine (quiet_observe _).bind fun text => quiet_ftAnyAll.bind fun mode => ?_
    refine (accounts_ftTimes h).bind fun times => carries_pure ?_ ?_
    · simp
    · cases times <;> simp
  · refine (accounts_expr hs).bind fun e => (quiet_expect _).bind fun _ => quiet_ftAnyAll.bind fun mode => ?_
    refine (accounts_ftTimes h).bind fun times => carries_pure ?_ ?_
    · simp
    · cases times <;> simp

section

variable {selection : Parser (FtSelection Expr)}

theorem accounts_ftPrimary (hs : Builds single) (h : Builds additive)
    (hi : Accounts selection .selected) :
    Accounts (ftPrimary single additive selection) .selected := by
  refine fun t => carries_ifPeek ?_ (carries_ifEat ?_ (accounts_ftWords hs h t))
  · refine accounts_pragmas.bind fun ⟨ps, offset⟩ => (quiet_expect _).bind fun _ => ?_
    refine carries_ifEat (carries_pure ?_ ?_) (hi.bind fun inner => (quiet_expect _).bind fun _ =>
      carries_pure ?_ ?_)
    · simp
    · simp
    · simp
    · simp
  · exact hi.bind fun inner => (quiet_expect _).bind fun _ => carries_pure rfl rfl

theorem accounts_ftPrimaryWithOptions (hs : Builds single) (h : Builds additive)
    (hi : Accounts selection .selected) :
    Accounts (ftPrimaryWithOptions single additive selection) .selected := by
  refine fun t => (accounts_ftPrimary hs h hi).bind fun primary => accounts_matchOptions.bind fun options => ?_
  refine (accounts_whenEats (accounts_bracedExpr hs)).bind fun weight => carries_ite (fun hnone => ?_)
    fun _ => carries_pure ?_ ?_
  · rw [Bool.and_eq_true, Option.isNone_iff_eq_none] at hnone
    refine carries_pure ?_ ?_
    · simp [FtMatchOptions.unbound_of_isEmpty hnone.1]
    · simp [hnone.2]
  · simp
  · cases weight <;> simp

theorem accounts_ftUnaryNot (hs : Builds single) (h : Builds additive)
    (hi : Accounts selection .selected) :
    Accounts (ftUnaryNot single additive selection) .selected := by
  have hp := accounts_ftPrimaryWithOptions hs h hi
  refine fun t => carries_ifEat (hp.bind fun operand => carries_pure ?_ ?_) (hp t)
  · simp
  · simp

/-- A connective holds what its operands hold, and so does a chain of it. -/
theorem accounts_ftChain {p : Parser (FtSelection Expr)} (h : Accounts p .selected) (r : Rule)
    {wrap : List (FtSelection Expr) → FtSelection Expr}
    (hw : ∀ operands, Stock.selected (wrap operands) = .all .selected operands) :
    Accounts (ftChain wrap <$> separatedBy r p) .selected := by
  refine (accounts_separatedBy h).map _ fun operands => ?_
  match operands with
  | [operand] => exact Stock.eq_of (by simp [ftChain]) (by simp [ftChain])
  | [] => exact hw []
  | first :: second :: rest => exact hw _

theorem accounts_ftFiltered (hs : Builds single) (h : Builds additive)
    (hi : Accounts selection .selected) :
    Accounts (ftFiltered single additive selection) .selected := by
  have hmild : Accounts (ftMildNot single additive selection) .selected :=
    accounts_ftChain (accounts_ftUnaryNot hs h hi) _ fun _ =>
      Stock.eq_of (by simp) (by simp)
  have hand : Accounts (ftAnd single additive selection) .selected :=
    accounts_ftChain hmild _ fun _ =>
      Stock.eq_of (by simp) (by simp)
  have hor : Accounts (ftOr single additive selection) .selected :=
    accounts_ftChain hand _ fun _ =>
      Stock.eq_of (by simp) (by simp)
  refine fun t => hor.bind fun inner => (accounts_many (accounts_ftPosFilter h)).bind ?_
  rintro (_ | ⟨filter, filters⟩)
  · exact carries_pure (by simp) (by simp)
  · refine carries_pure ?_ ?_
    · simp
    · simp

end

theorem accounts_ftSelection (hs : Builds single) (h : Builds additive) :
    Accounts (ftSelection single additive) .selected := by
  have hwithin (n : Nat) : Accounts (ftSelectionWithin single additive n) .selected := by
    induction n with
    | zero => exact fun _ => carries_exhausted
    | succ n ih => exact fun t => carries_nested (accounts_ftFiltered hs h ih t)
  exact fun t => quiet_get.bind fun _ => hwithin _ t

end Grammar

end XQuerySyntax
