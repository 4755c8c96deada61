import XQuerySyntax.Grammar.MatchOption
import XQuerySyntax.Proofs.Progress.Advance

/-! Names, types and match options come to an end. An item type holds others behind a parenthesis only. -/

namespace XQuerySyntax.Progress

open XQuerySyntax.Parser XQuerySyntax.Grammar

variable {n c : Nat}

/-! ### Names -/

theorem still_resolveQualifier (qualifier : String) (offset : Nat) :
    Still (resolveQualifier qualifier offset) := by
  refine (still_consult _).seq fun uri => ?_
  cases uri with
  | none => exact (still_record _ _ _).seq fun _ => still_pure _
  | some uri => exact still_pure _

theorem still_resolveName (name : LexicalName) (default : Option String) (offset : Nat) :
    Still (resolveName name default offset) := by
  unfold resolveName
  split
  · exact (still_resolveQualifier _ offset).seq fun _ => still_pure _
  · exact still_pure _

theorem stays_elementName (name : LexicalName) (offset : Nat) : Stays n c (elementName name offset) :=
  (stays_consult _).seq fun _ => (still_resolveName name _ offset).stays

theorem stays_functionName (name : LexicalName) (offset : Nat) : Stays n c (functionName name offset) :=
  (stays_consult _).seq fun _ => (still_resolveName name _ offset).stays

theorem stays_plainName (name : LexicalName) (offset : Nat) : Stays n c (plainName name offset) :=
  (still_resolveName name none offset).stays

theorem gains_variableName : Gains n c variableName := by
  refine (gains_expect (by rfl)).seq fun _ => (stays_observe _).seq fun offset => ?_
  exact (stays_observe _).seq fun name => stays_plainName name offset

theorem stays_checkBinding (qualifier uri : String) (offset : Nat) :
    Stays n c (checkBinding qualifier uri offset) :=
  uses_ite (stays_record _ _ _) (uses_ite (stays_record _ _ _) (stays_pure _))

theorem stays_checkDefaultNamespace (uri : String) (offset : Nat) :
    Stays n c (checkDefaultNamespace uri offset) := uses_ite (stays_record _ _ _) (stays_pure _)

theorem finds_nameTest (default : Option String) : Finds n c (nameTest default) := by
  refine uses_ifEat (by rfl) ?_ (uses_ifEat (by rfl) ?_ (uses_ifEat (by rfl) (stays_pure _)
    (uses_ifEat (by rfl) ?_ finds_none)))
  · exact (stays_observe _).seq fun _ => stays_pure _
  · refine (stays_observe _).seq fun offset => (stays_observe _).seq fun qualifier => ?_
    exact (still_resolveQualifier qualifier offset).stays.seq fun _ => stays_pure _
  · refine (stays_observe _).seq fun offset => (stays_observe _).seq fun name => ?_
    exact (still_resolveName name default offset).stays.seq fun _ => stays_pure _

/-! ### Kind tests -/

theorem stays_elementTestName (isElement : Bool) : Stays n c (elementTestName isElement) := by
  refine stays_ifEat (stays_pure _) (stays_ifEat ?_ (uses_unexpected _))
  refine (stays_observe _).seq fun offset => (stays_observe _).seq fun name => uses_ite ?_ ?_
  · exact (stays_elementName name offset).seq fun _ => stays_pure _
  · exact (stays_plainName name offset).seq fun _ => stays_pure _

theorem stays_elementTestArgs (isElement : Bool) : Stays n c (elementTestArgs isElement) := by
  have htype : Stays n c (do
      expect Terminal.kindName
      let offset ← start
      let typeName ← elementName (← capturedQualifiedName 0) offset
      let nillable ← if isElement then eat Terminal.kindNillable else pure false
      return ContentType.mk typeName nillable) := by
    refine (stays_expect _).seq fun _ => (stays_observe _).seq fun offset => ?_
    refine (stays_observe _).seq fun name => (stays_elementName name offset).seq fun _ => ?_
    refine uses_ite ?_ ?_
    · exact (stays_eat _).seq fun _ => stays_pure _
    · exact (stays_pure false).seq fun _ => stays_pure _
  refine stays_ifEat (stays_pure _) ((stays_elementTestName isElement).seq fun name => ?_)
  exact (stays_whenEats htype).seq fun _ => (stays_expect _).seq fun _ => stays_pure _

theorem stays_schemaTestName (isElement : Bool) : Stays n c (schemaTestName isElement) := by
  refine (stays_expect _).seq fun _ => (stays_observe _).seq fun offset => ?_
  refine (stays_observe _).seq fun name => uses_ite ?_ ?_
  · exact (stays_elementName name offset).seq fun _ => (stays_expect _).seq fun _ => stays_pure _
  · exact (stays_plainName name offset).seq fun _ => (stays_expect _).seq fun _ => stays_pure _

theorem stays_processingInstructionTarget : Stays n c processingInstructionTarget :=
  stays_ifEat ((stays_observe _).seq fun _ => stays_pure _)
    (stays_ifEat ((stays_observe _).seq fun _ => stays_pure _) (stays_pure _))

theorem stays_documentTestRoot : Stays n c documentTestRoot := by
  refine stays_ifEat ?_ (stays_ifEat ?_ (stays_pure _))
  · exact (stays_elementTestArgs true).seq fun _ => stays_pure _
  · exact (stays_schemaTestName true).seq fun _ => stays_pure _

theorem finds_kindTest : Finds n c kindTest := by
  refine uses_ifEat (by rfl) ?_ (uses_ifEat (by rfl) ?_ (uses_ifEat (by rfl) ?_ (uses_ifEat (by rfl) ?_
    (uses_ifEat (by rfl) ?_ (uses_ifEat (by rfl) ?_ ?_)))))
  · exact stays_documentTestRoot.seq fun _ => (stays_expect _).seq fun _ => stays_pure _
  · exact (stays_elementTestArgs true).seq fun _ => stays_pure _
  · exact (stays_elementTestArgs false).seq fun _ => stays_pure _
  · exact (stays_schemaTestName true).seq fun _ => stays_pure _
  · exact (stays_schemaTestName false).seq fun _ => stays_pure _
  · exact stays_processingInstructionTarget.seq fun _ => (stays_expect _).seq fun _ => stays_pure _
  · exact (finds_eatFirst (by decide)).seq finds_none fun test =>
      (stays_expect _).seq fun _ => stays_pure _

/-! ### Sequence types -/

theorem stays_occurrence : Stays n c occurrence := (stays_eatFirst _).seq fun _ => stays_pure _

theorem stays_sequenceTypeOf {itemType : Parser ItemType} (h : Stays n c itemType) (resume : LexicalState) :
    Stays n c (sequenceTypeOf itemType resume) := by
  refine (stays_goto _).seq fun _ => stays_ifEat ?_ ((uses_nested h).seq fun _ => ?_)
  · exact (stays_goto _).seq fun _ => stays_pure _
  · refine (stays_goto _).seq fun _ => stays_occurrence.seq fun _ => ?_
    exact (stays_goto _).seq fun _ => stays_pure _

theorem stays_functionTest {itemType : Parser ItemType} (h : Stays n c itemType) :
    Stays n c (functionTest itemType) := by
  have hresult (params : List SequenceType) : Stays n c (do
      expect Terminal.kindAs
      return ItemType.functionTest params (← sequenceTypeOf itemType .kindTest)) :=
    (stays_expect _).seq fun _ => (stays_sequenceTypeOf h _).seq fun _ => stays_pure _
  refine stays_ifEat (hresult []) ((stays_separatedBy (by rfl) (stays_sequenceTypeOf h _)).seq fun params => ?_)
  exact (stays_expect _).seq fun _ => hresult params

theorem gains_itemTypeWithin {steps : Nat} (h : n < c + steps) : Gains n c (itemTypeWithin steps) := by
  induction steps generalizing c with
  | zero => exact uses_of_lt h
  | succ steps ih =>
  have hinner := ih (by omega : n < c + 1 + steps)
  refine uses_ifEat (by rfl) (stays_pure _) (uses_ifEat (by rfl) (stays_pure _) (uses_ifEat (by rfl) ?_
    (uses_ifEat (by rfl) ?_ (finds_kindTest.seq ?_ fun test => stays_pure _))))
  · exact stays_functionTest hinner.stays
  · exact hinner.stays.seq fun _ => (stays_expect _).seq fun _ => stays_pure _
  · refine uses_ifEat (by rfl) ((stays_observe _).seq fun offset => ?_) (uses_unexpected _)
    exact (stays_observe _).seq fun name => (stays_elementName name offset).seq fun _ => stays_pure _

theorem stays_sequenceType (resume : LexicalState) : Stays n c (sequenceType resume) := by
  have hitem : Gains n c itemType := uses_steps fun _ => gains_itemTypeWithin
  exact stays_sequenceTypeOf hitem.stays resume

theorem stays_singleType : Stays n c singleType := by
  refine (stays_goto _).seq fun _ => (stays_expect _).seq fun _ => (stays_observe _).seq fun offset => ?_
  refine (stays_observe _).seq fun name => (stays_elementName name offset).seq fun _ => ?_
  refine (stays_goto _).seq fun _ => (stays_eat _).seq fun _ => ?_
  exact (stays_goto _).seq fun _ => stays_pure _

theorem stays_typedVariable : Stays n c typedVariable :=
  gains_variableName.stays.seq fun _ => (stays_whenEats (stays_sequenceType _)).seq fun _ => stays_pure _

/-! ### Match options -/

theorem stays_capturedConstant (i : Nat) : Stays n c (capturedConstant i) := by
  refine (stays_observe _).seq fun _ => (stays_observe _).seq fun _ => ?_
  exact still_get.stays.seq fun _ => stays_pure _

theorem stays_thesaurusLevels : Stays n c thesaurusLevels := by
  refine stays_ifEat ?_ (stays_ifEat ?_ (stays_ifEat ?_ (stays_ifEat ?_ (stays_pure _))))
  · exact (stays_capturedConstant 0).seq fun _ => stays_pure _
  · exact (stays_capturedConstant 0).seq fun _ => stays_pure _
  · exact (stays_capturedConstant 0).seq fun _ => stays_pure _
  · exact (stays_capturedConstant 0).seq fun _ => (stays_capturedConstant 1).seq fun _ => stays_pure _

theorem stays_thesaurusId : Stays n c thesaurusId := by
  refine (stays_expect _).seq fun _ => (stays_observe _).seq fun location => ?_
  refine (stays_whenEats (stays_observe _)).seq fun relationship => stays_thesaurusLevels.seq fun levels => ?_
  exact uses_ite ((stays_expect _).seq fun _ => stays_pure _) (stays_pure _)

theorem stays_thesaurus : Stays n c thesaurus :=
  stays_ifEat (stays_pure _) (stays_thesaurusId.seq fun _ => stays_pure _)

theorem stays_thesaurusOption : Stays n c thesaurusOption := by
  have hend (thesauri : List (Option FtThesaurusId)) : Stays n c (do
      goto .operator
      return FtThesaurusOption.mk true (thesauri.any Option.isNone) (thesauri.filterMap id)) :=
    (stays_goto _).seq fun _ => stays_pure _
  refine stays_ifEat ?_ ((stays_map _ stays_thesaurus).seq hend)
  refine (stays_separatedBy (by rfl) stays_thesaurus).seq fun thesauri => ?_
  exact (stays_expect _).seq fun _ => hend thesauri

theorem stays_stopWordList : Stays n c stopWordList := by
  have hword : Stays n c (do
      if !(← eat Terminal.ftListString) then unexpected "a string literal"
      capturedString 0) :=
    (stays_eat _).seq fun _ => uses_ite ((stays_unexpected _).seq fun _ => stays_observe _) (stays_observe _)
  exact (stays_separatedBy (by rfl) hword).seq fun _ => (stays_expect _).seq fun _ => stays_pure _

/-- The one place in the text that the parser comes back to is the one where it began, and then it has found
nothing. -/
theorem finds_furtherStopWords : Finds n c furtherStopWords := by
  refine fun b hb => goes_mark_bind fun place hplace => ?_
  refine Contract.bind (finds_eatFirst (by decide) b hb) ?_
  rintro (_ | combine)
  · exact finds_none b hb
  have hstored : Stays n (c + 1) (do return some (FtStopWordSource.mk (some combine) (.stored (← capturedString 0)))) :=
    (stays_observe _).seq fun _ => stays_pure _
  have hlist : Stays n (c + 1) (do return some (FtStopWordSource.mk (some combine) (.list (← stopWordList)))) :=
    stays_stopWordList.seq fun _ => stays_pure _
  have hback : Goes (Matcher.Past n (b + 1)) (do
      restore place
      return none) fun found m => m.Past n (b + (Option.isSome (found : Option FtStopWordSource)).toNat) :=
    Contract.bind (goes_restore hplace) fun _ _ hs => hs
  have heat (r : Rule) : Goes (Matcher.Past n (b + 1)) (eat r) fun _ => Matcher.Past n (b + 1) :=
    stays_eat r (b + 1) (Nat.le_add_left 0 _)
  refine Contract.bind (heat _) fun _ => Contract.ite (fun _ => hstored.uses hb) fun _ => ?_
  exact Contract.bind (heat _) fun _ => Contract.ite (fun _ => hlist.uses hb) fun _ => hback

theorem stays_stopWordOption : Stays n c stopWordOption := by
  have hfirst : Stays n c firstStopWords := by
    refine stays_ifEat (stays_pure _) (stays_ifEat ?_ (stays_ifEat ?_ (stays_pure _)))
    · exact (stays_observe _).seq fun _ => stays_pure _
    · exact stays_stopWordList.seq fun _ => stays_pure _
  refine stays_ifEat (stays_pure _) (hfirst.seq ?_)
  rintro (_ | words)
  · exact stays_pure _
  · exact (stays_many finds_furtherStopWords).seq fun _ => stays_pure _

theorem stays_matchOption (offset : Nat) : Stays n c (matchOption offset) := by
  refine (stays_eatFirst _).seq ?_
  rintro (_ | option)
  · refine stays_ifEat ?_ (stays_ifEat ?_ (stays_ifEat (stays_pure _)
      (stays_ifEat ?_ (stays_stopWordOption.seq ?_))))
    · exact (stays_observe _).seq fun _ => stays_pure _
    · refine (stays_observe _).seq fun name => (stays_observe _).seq fun value => ?_
      exact (stays_plainName name offset).seq fun _ => stays_pure _
    · exact stays_thesaurusOption.seq fun _ => stays_pure _
    · rintro (_ | words)
      · exact uses_unexpected _
      · exact stays_pure _
  · exact stays_pure _

theorem stays_matchOptions : Stays n c matchOptions := by
  refine stays_iterate (fun options => ?_) _
  refine uses_ifEat (by rfl) ?_ (uses_pure rfl)
  refine (stays_observe _).seq fun offset => (stays_matchOption offset).seq fun option => ?_
  exact uses_ite ((stays_record _ _ _).seq fun _ => stays_pure _) (stays_pure _)

end XQuerySyntax.Progress
