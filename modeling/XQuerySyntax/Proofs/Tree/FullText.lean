import XQuerySyntax.Grammar.FullText
import XQuerySyntax.Proofs.Tree.Clause

/-! The trees of full-text searches. A chain has several operands whenever it is a node of its own, and
only the first source of stop words has no combinator. -/

namespace XQuerySyntax

variable {o : Origin}

/-- A constant of the module in a place of the text. -/
abbrev LiteralNode.Sound (o : Origin) (k : LiteralNode) : Prop :=
  o.HasPlace k.offset ∧ k.module = o.module

/-- A match option that keeps match options sound. -/
def FtMatchOption.Sound (o : Origin) : FtMatchOption → Prop
  | .thesaurus value => ∀ k ∈ value.constants, k.Sound o
  | .stopWords value => value.WellFormed
  | _ => True

theorem FtMatchOptions.sound_empty : FtMatchOptions.empty.Sound o where
  wellFormed := fun _ h => nomatch h
  constants := List.forall_mem_nil _

theorem FtMatchOptions.Sound.addTo {m : FtMatchOptions} {option : FtMatchOption} (hm : m.Sound o)
    (h : option.Sound o) : (option.addTo m).Sound o := by
  cases option with
  | thesaurus value =>
    have hconstants : (FtMatchOption.addTo m (.thesaurus value)).constants = value.constants :=
      List.append_nil _
    exact ⟨hm.wellFormed, by rwa [hconstants]⟩
  | stopWords value =>
    refine ⟨?_, hm.constants⟩
    rintro _ ⟨⟩
    exact h
  | _ => exact ⟨hm.wellFormed, hm.constants⟩

/-- A well-formed selection with sound parts. -/
structure FtSelection.Sound (o : Origin) (s : FtSelection Expr) : Prop where
  operands : ∀ e ∈ s.children, e.IsOperand o
  wellFormed : s.WellFormed
  options : ∀ m ∈ s.matchOptions, m.Sound o

/-- A connective of selections, which needs two of them. -/
structure Connective (wrap : List (FtSelection Expr) → FtSelection Expr) : Prop where
  children : ∀ operands, (wrap operands).children = operands.flatMap fun s => s.children
  matchOptions : ∀ operands, (wrap operands).matchOptions = operands.flatMap fun s => s.matchOptions
  wellFormed : ∀ operands, 2 ≤ operands.length → (∀ s ∈ operands, s.WellFormed) →
    (wrap operands).WellFormed

theorem connective_or : Connective .or :=
  ⟨fun _ => by rw [FtSelection.children], fun _ => by rw [FtSelection.matchOptions], fun _ => .or⟩

theorem connective_and : Connective .and :=
  ⟨fun _ => by rw [FtSelection.children], fun _ => by rw [FtSelection.matchOptions], fun _ => .and⟩

theorem connective_mildNot : Connective .mildNot :=
  ⟨fun _ => by rw [FtSelection.children], fun _ => by rw [FtSelection.matchOptions], fun _ => .mildNot⟩

theorem Connective.sound {wrap : List (FtSelection Expr) → FtSelection Expr} (hw : Connective wrap)
    {operands : List (FtSelection Expr)} (two : 2 ≤ operands.length)
    (h : ∀ s ∈ operands, s.Sound o) : (wrap operands).Sound o where
  operands := by
    rw [hw.children]
    exact List.forall_mem_flatMap.2 fun s hs => (h s hs).operands
  wellFormed := hw.wellFormed operands two fun s hs => (h s hs).wellFormed
  options := by
    rw [hw.matchOptions]
    exact List.forall_mem_flatMap.2 fun s hs => (h s hs).options

namespace Grammar

open XQuerySyntax.Parser

variable {d : Nat} {single additive : Parser Expr} {offset : Nat}

/-! ### Match options -/

theorem yields_capturedConstant (i : Nat) : Yields o d (capturedConstant i) (LiteralNode.Sound o) :=
  (yields_capturedNumber? i).bind fun _ _ => yields_start.bind fun _ ho =>
    yields_get.bind fun _ hs => yields_pure ⟨ho, hs.2⟩

theorem yields_thesaurusLevels :
    Yields o d thesaurusLevels fun found => ∀ k ∈ found.toList.flatMap FtRange.children, k.Sound o := by
  have hone (form : LiteralNode → FtRange LiteralNode) (hf : ∀ k, (form k).children = [k]) :
      Yields o d (do return some (form (← capturedConstant 0))) fun found =>
        ∀ k ∈ found.toList.flatMap FtRange.children, k.Sound o := by
    refine (yields_capturedConstant 0).bind fun k hk => yields_pure ?_
    rw [Option.toList_some, List.flatMap_singleton, hf]
    exact List.forall_mem_singleton.2 hk
  refine yields_ifEat (hone .exactly fun _ => rfl) (yields_ifEat (hone .atLeast fun _ => rfl)
    (yields_ifEat (hone .atMost fun _ => rfl) (yields_ifEat ?_ (yields_pure (List.forall_mem_nil _)))))
  refine (yields_capturedConstant 0).bind fun low hlow => (yields_capturedConstant 1).bind fun high hh => ?_
  refine yields_pure ?_
  rw [Option.toList_some, List.flatMap_singleton]
  exact List.forall_mem_cons.2 ⟨hlow, List.forall_mem_singleton.2 hh⟩

theorem yields_thesaurusId :
    Yields o d thesaurusId fun id => ∀ k ∈ id.levels.toList.flatMap FtRange.children, k.Sound o := by
  refine (yields_expect _).bind fun _ _ => (yields_capturedString 0).bind fun location _ => ?_
  refine (yields_whenEats (yields_capturedString 0)).bind fun relationship _ => ?_
  refine yields_thesaurusLevels.bind fun levels hl => yields_ite (fun _ => ?_) fun _ => yields_pure hl
  exact (yields_expect _).bind fun _ _ => yields_pure hl

theorem yields_thesaurus :
    Yields o d thesaurus fun found =>
      ∀ id ∈ found, ∀ k ∈ id.levels.toList.flatMap FtRange.children, k.Sound o :=
  yields_ifEat yields_none yields_thesaurusId.some

theorem yields_thesaurusOption :
    Yields o d thesaurusOption fun t => ∀ k ∈ t.constants, k.Sound o := by
  have hend (thesauri : List (Option FtThesaurusId))
      (h : ∀ found ∈ thesauri, ∀ id ∈ found,
        ∀ k ∈ id.levels.toList.flatMap FtRange.children, k.Sound o) : Yields o d (do
        goto .operator
        return FtThesaurusOption.mk true (thesauri.any Option.isNone) (thesauri.filterMap id))
        fun t => ∀ k ∈ t.constants, k.Sound o := by
    refine (yields_goto _).bind fun _ _ => yields_pure (List.forall_mem_flatMap.2 fun id hid => ?_)
    obtain ⟨_, hmem, rfl⟩ := List.mem_filterMap.1 hid
    exact h _ hmem id rfl
  refine yields_ifEat ?_ ((yields_thesaurus.map _ fun _ h => List.forall_mem_singleton.2 h).bind hend)
  refine (yields_separatedBy yields_thesaurus).bind fun thesauri ht => ?_
  exact (yields_expect _).bind fun _ _ => hend thesauri ht.2

theorem yields_stopWordList : Yields o d stopWordList fun _ => True := by
  have hword : Yields o d (do
      if !(← eat Terminal.ftListString) then unexpected "a string literal"
      capturedString 0) fun _ => True :=
    (yields_eat _).bind fun _ _ =>
      yields_ite (fun _ => yields_unexpected_bind _) fun _ => yields_capturedString 0
  refine (yields_separatedBy hword).bind fun _ _ => ?_
  exact (yields_expect _).bind fun _ _ => yields_any

/-- A further source has a combinator; if no source follows one, it is left where it is. -/
theorem yields_furtherStopWords :
    Yields o d furtherStopWords fun found => ∀ s ∈ found, s.combine.isSome := by
  refine yields_mark.bind fun place hplace => (yields_eatFirst _).bind ?_
  rintro (_ | combine) -
  · exact yields_none
  · refine yields_ifEat ?_ (yields_ifEat ?_ ?_)
    · exact (yields_capturedString 0).bind fun _ _ => yields_some rfl
    · exact yields_stopWordList.bind fun _ _ => yields_some rfl
    · exact (yields_restore hplace).bind fun _ _ => yields_none

theorem yields_firstStopWords : Yields o d firstStopWords fun _ => True := by
  refine yields_ifEat yields_any (yields_ifEat ?_ (yields_ifEat ?_ yields_any))
  · exact (yields_capturedString 0).bind fun _ _ => yields_any
  · exact yields_stopWordList.bind fun _ _ => yields_any

theorem yields_stopWordOption :
    Yields o d stopWordOption fun found => ∀ w ∈ found, w.WellFormed := by
  refine yields_ifEat (yields_some ⟨fun _ h => (nomatch h), List.forall_mem_nil _⟩)
    (yields_firstStopWords.bind ?_)
  rintro (_ | words) -
  · exact yields_none
  · refine (yields_many yields_furtherStopWords).bind fun sources hs => yields_some ⟨?_, hs⟩
    rintro _ ⟨⟩
    rfl

theorem yields_matchOption (ho : o.HasPlace offset) :
    Yields o d (matchOption offset) (FtMatchOption.Sound o) := by
  refine (yields_eatFirst _).bind ?_
  rintro (_ | option) hmem
  · refine yields_ifEat ?_ (yields_ifEat ?_ (yields_ifEat (yields_pure (List.forall_mem_nil _))
      (yields_ifEat ?_ (yields_stopWordOption.bind ?_))))
    · exact (yields_capturedString 0).bind fun _ _ => yields_pure trivial
    · refine (yields_capturedQualifiedName 0).bind fun name _ => ?_
      refine (yields_capturedString 1).bind fun value _ => ?_
      exact (yields_plainName name ho).bind fun _ _ => yields_pure trivial
    · exact yields_thesaurusOption.bind fun _ ht => yields_pure ht
    · rintro (_ | words) hw
      · exact yields_unexpected _
      · exact yields_pure (hw words rfl)
  · refine yields_pure ?_
    have hplain := hmem option rfl
    simp only [List.map_cons, List.map_nil, List.mem_cons, List.not_mem_nil, or_false] at hplain
    rcases hplain with rfl | rfl | rfl | rfl | rfl | rfl | rfl | rfl | rfl | rfl <;> trivial

theorem yields_matchOptions : Yields o d matchOptions (FtMatchOptions.Sound o) := by
  have hstep (options : FtMatchOptions) (hopts : options.Sound o) : Yields o d (addMatchOption options)
      (Sum.elim (FtMatchOptions.Sound o) (FtMatchOptions.Sound o)) := by
    refine yields_ifEat ?_ (yields_pure hopts)
    refine yields_nextOffset.bind fun offset ho => (yields_matchOption ho).bind fun option hoption => ?_
    refine yields_ite (fun _ => ?_) fun _ => yields_pure (hopts.addTo hoption)
    exact (yields_record ho _ _).bind fun _ _ => yields_pure (hopts.addTo hoption)
  exact yields_iterate hstep FtMatchOptions.sound_empty

/-! ### Selections -/

theorem yields_ftUnit : Yields o d ftUnit fun _ => True := by
  refine (yields_eatFirst _).bind ?_
  rintro (_ | unit) -
  · exact yields_unexpected _
  · exact yields_any

theorem yields_ftBigUnit : Yields o d ftBigUnit fun _ => True := by
  refine (yields_eatFirst _).bind ?_
  rintro (_ | unit) -
  · exact yields_unexpected _
  · exact yields_any

theorem yields_ftAnyAll : Yields o d ftAnyAll fun _ => True :=
  (yields_eatFirst _).bind fun _ _ => yields_any

theorem yields_ftRange (h : YieldsOperand o additive) :
    Yields o d (ftRange additive) fun r => ∀ e ∈ r.children, e.IsOperand o := by
  have hone (form : Expr → FtRange Expr) (hf : ∀ e, (form e).children = [e]) :
      Yields o d (do return form (← additive)) fun r => ∀ e ∈ r.children, e.IsOperand o := by
    refine (h d).bind fun e he => yields_pure ?_
    rw [hf]
    exact List.forall_mem_singleton.2 he
  refine yields_ifEat (hone .exactly fun _ => rfl) (yields_ifEat (hone .atLeast fun _ => rfl)
    (yields_ifEat (hone .atMost fun _ => rfl) (yields_ifEat ?_ (yields_unexpected _))))
  refine (h d).bind fun low hlow => (yields_expect _).bind fun _ _ => (h d).bind fun high hh => ?_
  exact yields_pure (List.forall_mem_cons.2 ⟨hlow, List.forall_mem_singleton.2 hh⟩)

theorem yields_ftPosFilter (h : YieldsOperand o additive) :
    Yields o d (ftPosFilter additive) fun found =>
      ∀ f ∈ found, ∀ e ∈ f.children, e.IsOperand o := by
  refine yields_ifEat (yields_some (List.forall_mem_nil _)) (yields_ifEat ?_ (yields_ifEat ?_
    (yields_ifEat ?_ (yields_ifEat ?_ ?_))))
  · refine (h d).bind fun size hsize => yields_ftUnit.bind fun _ _ => ?_
    exact yields_some (List.forall_mem_singleton.2 hsize)
  · exact (yields_ftRange h).bind fun range hr => yields_ftUnit.bind fun _ _ => yields_some hr
  · exact yields_ftBigUnit.bind fun _ _ => yields_some (List.forall_mem_nil _)
  · exact yields_ftBigUnit.bind fun _ _ => yields_some (List.forall_mem_nil _)
  · refine (yields_eatFirst _).weaken fun found hfound f hf => ?_
    have hmem := hfound f hf
    simp only [List.map_cons, List.map_nil, List.mem_cons, List.not_mem_nil, or_false] at hmem
    rcases hmem with rfl | rfl | rfl <;> exact List.forall_mem_nil _

theorem yields_ftTimes (h : YieldsOperand o additive) :
    Yields o d (ftTimes additive) fun found =>
      ∀ e ∈ found.toList.flatMap FtRange.children, e.IsOperand o := by
  refine (yields_whenEats ((yields_ftRange h).bind fun range hr =>
    (yields_expect _).bind fun _ _ => yields_pure hr)).weaken fun found hf => ?_
  exact List.forall_mem_flatMap.2 (forall_mem_toList.2 hf)

theorem yields_ftWords (hs : YieldsOperand o single) (h : YieldsOperand o additive) :
    Yields o d (ftWords single additive) (FtSelection.Sound o) := by
  refine yields_ifEat ?_ (yields_ifEat ?_ (yields_unexpected _))
  · refine (yields_capturedString 0).bind fun text _ => yields_ftAnyAll.bind fun mode _ => ?_
    refine (yields_ftTimes h).bind fun times ht => yields_pure ⟨?_, .words _ _ _, ?_⟩
    · rw [FtSelection.children]
      exact ht
    · rw [FtSelection.matchOptions]
      exact List.forall_mem_nil _
  · refine (yields_expr hs).bind fun e he => (yields_expect _).bind fun _ _ => ?_
    refine yields_ftAnyAll.bind fun mode _ => (yields_ftTimes h).bind fun times ht => ?_
    refine yields_pure ⟨?_, .computedWords _ _ _, ?_⟩
    · rw [FtSelection.children]
      exact List.forall_mem_cons.2 ⟨he, ht⟩
    · rw [FtSelection.matchOptions]
      exact List.forall_mem_nil _

section

variable {selection : Parser (FtSelection Expr)}

theorem yields_ftPrimary (hs : YieldsOperand o single) (h : YieldsOperand o additive)
    (hi : Yields o d selection (FtSelection.Sound o)) :
    Yields o d (ftPrimary single additive selection) (FtSelection.Sound o) := by
  refine yields_peek_bind (yieldsAt_pragmas.bind fun ⟨ps, _⟩ ⟨hne, _⟩ => ?_)
    (yields_ifEat (hi.bind fun inner hinner => ?_) (yields_ftWords hs h))
  · refine (yields_expect _).bind fun _ _ => yields_ifEat (yields_pure ⟨?_, .emptyExtension hne, ?_⟩)
      (hi.bind fun inner hinner => (yields_expect _).bind fun _ _ => ?_)
    · rw [FtSelection.children]
      exact List.forall_mem_nil _
    · rw [FtSelection.matchOptions]
      exact List.forall_mem_nil _
    · refine yields_pure ⟨?_, .extension hne hinner.wellFormed, ?_⟩
      · rw [FtSelection.children]
        exact hinner.operands
      · rw [FtSelection.matchOptions]
        exact hinner.options
  · exact (yields_expect _).bind fun _ _ => yields_pure hinner

theorem yields_ftPrimaryWithOptions (hs : YieldsOperand o single) (h : YieldsOperand o additive)
    (hi : Yields o d selection (FtSelection.Sound o)) :
    Yields o d (ftPrimaryWithOptions single additive selection) (FtSelection.Sound o) := by
  refine (yields_ftPrimary hs h hi).bind fun primary hp => yields_matchOptions.bind fun options hm => ?_
  refine (yields_whenEats (yields_bracedExpr hs)).bind fun weight hw => ?_
  refine yields_ite (fun _ => yields_pure hp) fun _ => yields_pure ⟨?_, .withOptions _ _ hp.wellFormed, ?_⟩
  · rw [FtSelection.children]
    exact List.forall_mem_append.2 ⟨hp.operands, forall_mem_toList.2 hw⟩
  · rw [FtSelection.matchOptions]
    exact List.forall_mem_cons.2 ⟨hm, hp.options⟩

theorem yields_ftUnaryNot (hs : YieldsOperand o single) (h : YieldsOperand o additive)
    (hi : Yields o d selection (FtSelection.Sound o)) :
    Yields o d (ftUnaryNot single additive selection) (FtSelection.Sound o) := by
  have hp := yields_ftPrimaryWithOptions hs h hi
  refine yields_ifEat (hp.bind fun operand ho => yields_pure ⟨?_, .not ho.wellFormed, ?_⟩) hp
  · rw [FtSelection.children]
    exact ho.operands
  · rw [FtSelection.matchOptions]
    exact ho.options

theorem yields_ftChain {p : Parser (FtSelection Expr)} (h : Yields o d p (FtSelection.Sound o)) (r : Rule)
    {wrap : List (FtSelection Expr) → FtSelection Expr} (hw : Connective wrap) :
    Yields o d (ftChain wrap <$> separatedBy r p) (FtSelection.Sound o) := by
  refine (yields_separatedBy h).map _ ?_
  rintro operands ⟨hne, hall⟩
  match operands with
  | [] => exact absurd rfl hne
  | [operand] => exact List.forall_mem_singleton.1 hall
  | _ :: _ :: _ => exact hw.sound (Nat.le_add_left _ _) hall

theorem yields_ftFiltered (hs : YieldsOperand o single) (h : YieldsOperand o additive)
    (hi : Yields o d selection (FtSelection.Sound o)) :
    Yields o d (ftFiltered single additive selection) (FtSelection.Sound o) := by
  have hmild : Yields o d (ftMildNot single additive selection) (FtSelection.Sound o) :=
    yields_ftChain (yields_ftUnaryNot hs h hi) _ connective_mildNot
  have hand : Yields o d (ftAnd single additive selection) (FtSelection.Sound o) :=
    yields_ftChain hmild _ connective_and
  have hor : Yields o d (ftOr single additive selection) (FtSelection.Sound o) :=
    yields_ftChain hand _ connective_or
  refine hor.bind fun inner hinner => (yields_many (yields_ftPosFilter h)).bind ?_
  rintro (_ | ⟨filter, filters⟩) hf
  · exact yields_pure hinner
  · refine yields_pure ⟨?_, .positional hinner.wellFormed (List.cons_ne_nil _ _), ?_⟩
    · rw [FtSelection.children]
      exact List.forall_mem_append.2 ⟨hinner.operands, List.forall_mem_flatMap.2 hf⟩
    · rw [FtSelection.matchOptions]
      exact hinner.options

end

theorem yields_ftSelection (hs : YieldsOperand o single) (h : YieldsOperand o additive) :
    Yields o d (ftSelection single additive) (FtSelection.Sound o) := by
  have hwithin (n d : Nat) :
      Yields o d (ftSelectionWithin single additive n) (FtSelection.Sound o) := by
    induction n generalizing d with
    | zero => exact yields_exhausted
    | succ n ih => exact yields_nested fun _ => yields_ftFiltered hs h (ih (d + 1))
  exact yields_get.bind fun _ _ => hwithin _ d

end Grammar

end XQuerySyntax
