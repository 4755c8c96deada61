import XQuerySyntax.Proofs.LexicalState.Clause

/-! The lexical states of full-text searches. Match options stand behind an operand; a thesaurus has a
state of its own, and sources of stop words go back to a mark when an operator follows instead. -/

namespace XQuerySyntax.Grammar

open XQuerySyntax.Parser

variable {single additive : Parser Expr} {S : List LexicalState} {k : StateStack}

/-! ### Match options -/

theorem keeps_capturedConstant (i : Nat) : Keeps (capturedConstant i) :=
  (keeps_capturedNumber? i).seq fun _ => keeps_start.seq fun _ => keeps_get.seq fun _ => keeps_pure _

theorem keeps_thesaurusLevels : Keeps thesaurusLevels := by
  refine keeps_ifEat rfl ?_ (keeps_ifEat rfl ?_ (keeps_ifEat rfl ?_ (keeps_ifEat rfl ?_
    (keeps_pure _))))
  · exact (keeps_capturedConstant 0).seq fun _ => keeps_pure _
  · exact (keeps_capturedConstant 0).seq fun _ => keeps_pure _
  · exact (keeps_capturedConstant 0).seq fun _ => keeps_pure _
  · refine (keeps_capturedConstant 0).seq fun _ => (keeps_capturedConstant 1).seq fun _ => ?_
    exact keeps_pure _

theorem keeps_thesaurusId : Keeps thesaurusId := by
  refine (keeps_expect rfl).seq fun _ => (keeps_capturedString 0).seq fun location => ?_
  refine (keeps_whenEats rfl (keeps_capturedString 0)).seq fun relationship => ?_
  refine keeps_thesaurusLevels.seq fun levels => keeps_ite ?_ (keeps_pure _)
  exact (keeps_expect rfl).seq fun _ => keeps_pure _

theorem keeps_thesaurus : Keeps thesaurus :=
  keeps_ifEat rfl (keeps_pure _) (keeps_thesaurusId.seq fun _ => keeps_pure _)

theorem leads_thesaurusOption : Leads k thesaurusOption fun _ => k.goto .operator := by
  have hend (thesauri : List (Option FtThesaurusId)) : Leads k (do
      goto .operator
      return FtThesaurusOption.mk true (thesauri.any Option.isNone) (thesauri.filterMap id))
      fun _ => k.goto .operator :=
    leads_bind (leads_goto _) fun _ => leads_pure rfl
  refine course_ifEat rfl ?_ ?_
  · refine (keeps_separatedBy rfl keeps_thesaurus).bind fun thesauri => ?_
    exact (keeps_expect rfl).bind fun _ => (keeps_pure thesauri).bind hend
  · exact leads_bind (leads_map _ (keeps_thesaurus k)) hend

theorem keeps_stopWordList : Keeps stopWordList := by
  refine (keeps_separatedBy rfl ?_).seq fun _ => (keeps_expect rfl).seq fun _ => keeps_pure _
  refine (keeps_eat rfl).seq fun _ => keeps_ite ?_ (keeps_capturedString 0)
  exact (keeps_unexpected _).seq fun _ => keeps_capturedString 0

/-- Going back to the mark restores the stack that was marked. -/
theorem keeps_furtherStopWords : Keeps furtherStopWords := by
  refine fun k => course_mark fun place hplace => ?_
  refine Keeps.bind (keeps_eatFirst ?_) fun combine => ?_
  · simp only [List.forall_mem_cons]
    exact ⟨rfl, rfl, fun _ h => nomatch h⟩
  · refine course_ite (fun _ => leads_pure rfl) fun _ => ?_
    refine course_ifEat rfl ?_ (course_ifEat rfl ?_ ?_)
    · exact (keeps_capturedString 0).bind fun _ => leads_pure rfl
    · exact keeps_stopWordList.bind fun _ => leads_pure rfl
    · exact leads_bind (leads_restore hplace) fun _ => leads_pure rfl

theorem keeps_firstStopWords : Keeps firstStopWords := by
  refine keeps_ifEat rfl (keeps_pure _) (keeps_ifEat rfl ?_ (keeps_ifEat rfl ?_ (keeps_pure _)))
  · exact (keeps_capturedString 0).seq fun _ => keeps_pure _
  · exact keeps_stopWordList.seq fun _ => keeps_pure _

theorem keeps_stopWordOption : Keeps stopWordOption := by
  refine keeps_ifEat rfl (keeps_pure _) (keeps_firstStopWords.seq ?_)
  rintro (_ | words)
  · exact keeps_pure _
  · exact (keeps_many keeps_furtherStopWords).seq fun _ => keeps_pure _

theorem suffix_matchOption (offset : Nat) : Suffix (matchOption offset) := by
  intro saved
  refine Keeps.bind (keeps_eatFirst ?_) ?_
  · simp only [List.forall_mem_cons]
    exact ⟨rfl, rfl, rfl, rfl, rfl, rfl, rfl, rfl, rfl, rfl, fun _ h => nomatch h⟩
  · rintro (_ | option)
    · refine course_ifEat rfl ?_ (course_ifEat rfl ?_ (course_ifEat rfl (leads_pure rfl)
        (course_ifEat rfl ?_ ?_)))
      · exact (keeps_capturedString 0).bind fun _ => leads_pure rfl
      · refine (keeps_capturedQualifiedName 0).bind fun name => ?_
        refine (keeps_capturedString 1).bind fun value => ?_
        exact (keeps_plainName name offset).bind fun _ => leads_pure rfl
      · exact leads_bind leads_thesaurusOption fun _ => leads_pure rfl
      · refine keeps_stopWordOption.bind ?_
        rintro (_ | words)
        · exact course_unexpected _
        · exact leads_pure rfl
    · exact leads_pure rfl

theorem suffix_addMatchOption (options : FtMatchOptions) : Suffix (addMatchOption options) := by
  refine fun saved => course_ifEat rfl ?_ (leads_pure rfl)
  refine keeps_nextOffset.bind fun offset => leads_bind (suffix_matchOption offset saved) ?_
  refine fun option => course_ite (fun _ => ?_) fun _ => leads_pure rfl
  exact (keeps_record _ _ _).bind fun _ => leads_pure rfl

theorem suffix_matchOptions : Suffix matchOptions := by
  refine fun saved => leads_iterate (fun options => ?_) _
  refine course_weaken (suffix_addMatchOption options saved) ?_
  rintro (_ | _) _ rfl <;> rfl

/-! ### Selections -/

theorem keeps_ftUnit : Keeps ftUnit := by
  refine Keeps.seq (keeps_eatFirst ?_) ?_
  · simp only [List.forall_mem_cons]
    exact ⟨rfl, rfl, rfl, fun _ h => nomatch h⟩
  · rintro (_ | unit)
    · exact keeps_unexpected _
    · exact keeps_pure _

theorem keeps_ftBigUnit : Keeps ftBigUnit := by
  refine Keeps.seq (keeps_eatFirst ?_) ?_
  · simp only [List.forall_mem_cons]
    exact ⟨rfl, rfl, fun _ h => nomatch h⟩
  · rintro (_ | unit)
    · exact keeps_unexpected _
    · exact keeps_pure _

theorem keeps_ftAnyAll : Keeps ftAnyAll := by
  refine Keeps.seq (keeps_eatFirst ?_) fun _ => keeps_pure _
  simp only [List.forall_mem_cons]
  exact ⟨rfl, rfl, rfl, rfl, rfl, fun _ h => nomatch h⟩

theorem suffix_ftRange (h : Operand additive) : Suffix (ftRange additive) := by
  refine fun S => course_ifEat rfl ?_ (course_ifEat rfl ?_ (course_ifEat rfl ?_
    (course_ifEat rfl ?_ (course_unexpected _))))
  · exact leads_bind (h S) fun _ => leads_pure rfl
  · exact leads_bind (h S) fun _ => leads_pure rfl
  · exact leads_bind (h S) fun _ => leads_pure rfl
  · refine leads_bind (h S) fun low => leads_bind (leads_expect rfl) fun _ => ?_
    exact leads_bind (h S) fun _ => leads_pure rfl

theorem suffix_ftPosFilter (h : Operand additive) : Suffix (ftPosFilter additive) := by
  refine fun S => course_ifEat rfl (leads_pure rfl) (course_ifEat rfl ?_ (course_ifEat rfl ?_
    (course_ifEat rfl ?_ (course_ifEat rfl ?_ (keeps_eatFirst ?_ _)))))
  · exact leads_bind (h S) fun size => keeps_ftUnit.bind fun _ => leads_pure rfl
  · exact leads_bind (suffix_ftRange h S) fun range => keeps_ftUnit.bind fun _ => leads_pure rfl
  · exact keeps_ftBigUnit.bind fun _ => leads_pure rfl
  · exact keeps_ftBigUnit.bind fun _ => leads_pure rfl
  · simp only [List.forall_mem_cons]
    exact ⟨rfl, rfl, rfl, fun _ h => nomatch h⟩

theorem suffix_ftTimes (h : Operand additive) : Suffix (ftTimes additive) := by
  refine fun S => leads_whenEats_back rfl (leads_bind (suffix_ftRange h S) fun range => ?_)
  exact (keeps_expect rfl).bind fun _ => leads_pure rfl

theorem operand_ftWords (hs : Operand single) (h : Operand additive) :
    Operand (ftWords single additive) := by
  refine fun S => course_ifEat rfl ?_ (course_ifEat rfl ?_ (course_unexpected _))
  · refine (keeps_capturedString 0).bind fun text => keeps_ftAnyAll.bind fun mode => ?_
    exact leads_bind (suffix_ftTimes h S) fun _ => leads_pure rfl
  · refine leads_bind (operand_expr hs S) fun e => leads_bind (leads_expect rfl) fun _ => ?_
    refine keeps_ftAnyAll.bind fun mode => ?_
    exact leads_bind (suffix_ftTimes h S) fun _ => leads_pure rfl

section

variable {selection : Parser (FtSelection Expr)}

theorem operand_ftPrimary (hs : Operand single) (h : Operand additive) (hi : Operand selection) :
    Operand (ftPrimary single additive selection) := by
  refine fun S => (keeps_peek _).bind fun _ => course_ite (fun _ => ?_) fun _ => ?_
  · refine keeps_pragmas.bind fun ⟨ps, _⟩ => leads_bind (leads_expect rfl) fun _ => ?_
    refine course_ifEat rfl (leads_pure rfl) (leads_bind (hi S) fun inner => ?_)
    exact leads_bind (leads_expect rfl) fun _ => leads_pure rfl
  · refine course_ifEat rfl (leads_bind (hi S) fun inner => ?_) (operand_ftWords hs h S)
    exact leads_bind (leads_expect rfl) fun _ => leads_pure rfl

theorem operand_ftPrimaryWithOptions (hs : Operand single) (h : Operand additive)
    (hi : Operand selection) : Operand (ftPrimaryWithOptions single additive selection) := by
  refine fun S => leads_bind (operand_ftPrimary hs h hi S) fun primary => ?_
  refine leads_bind (suffix_matchOptions S) fun options => ?_
  refine leads_bind (leads_whenEats_back rfl (leads_bracedExpr hs)) fun weight => ?_
  exact course_ite (fun _ => leads_pure rfl) fun _ => leads_pure rfl

theorem operand_ftUnaryNot (hs : Operand single) (h : Operand additive) (hi : Operand selection) :
    Operand (ftUnaryNot single additive selection) := by
  have hp := operand_ftPrimaryWithOptions hs h hi
  exact fun S => course_ifEat rfl (leads_bind (hp S) fun _ => leads_pure rfl) (hp S)

/-- A chain of selections with one connective. -/
theorem operand_ftChain {p : Parser (FtSelection Expr)} (h : Operand p) {r : Rule}
    (hr : r.next = .goto .expression) (wrap : List (FtSelection Expr) → FtSelection Expr) :
    Operand (wrap <$> separatedBy r p) := by
  refine fun S => leads_map wrap (leads_separatedBy (by rw [hr]; rfl) (h S) ?_)
  rw [hr]
  exact h S

theorem operand_ftFiltered (hs : Operand single) (h : Operand additive) (hi : Operand selection) :
    Operand (ftFiltered single additive selection) := by
  have hmild : Operand (ftMildNot single additive selection) :=
    operand_ftChain (operand_ftUnaryNot hs h hi) rfl _
  have hand : Operand (ftAnd single additive selection) := operand_ftChain hmild rfl _
  have hor : Operand (ftOr single additive selection) := operand_ftChain hand rfl _
  refine fun S => leads_bind (hor S) fun inner => ?_
  refine leads_bind (leads_many (suffix_ftPosFilter h S)) ?_
  rintro (_ | ⟨filter, filters⟩) <;> exact leads_pure rfl

end

theorem operand_ftSelectionWithin (hs : Operand single) (h : Operand additive) (n : Nat) :
    Operand (ftSelectionWithin single additive n) := by
  induction n with
  | zero => exact fun _ => course_exhausted
  | succ n ih => exact fun S => course_nested (operand_ftFiltered hs h ih S)

theorem operand_ftSelection (hs : Operand single) (h : Operand additive) :
    Operand (ftSelection single additive) :=
  fun S => keeps_get.bind fun _ => operand_ftSelectionWithin hs h _ S

end XQuerySyntax.Grammar
