import XQuerySyntax.Proofs.Names.Reports

/-! Accounts of names and sequence types. A name is looked up once, where it is read, and reported there
if its qualifier is not bound. -/

namespace XQuerySyntax.Grammar

open XQuerySyntax.Parser

variable {t : Stock} {offset : Nat}

/-! ### Names -/

/-- What a lookup leaves in hand: the qualifier, if it is not bound. -/
def missing (qualifier : String) (uri : Option String) : List String :=
  if uri.isNone then [qualifier] else []

theorem accounts_resolveQualifier (qualifier : String) (offset : Nat) :
    Accounts (resolveQualifier qualifier offset) (.naming (missing qualifier)) := by
  refine fun t => (quiet_consult _).bind fun uri => ?_
  cases uri with
  | none =>
    have hreport : Carries t (record .unknownPrefix offset (unboundMessage qualifier))
        fun _ => t ++ .naming (missing qualifier) none := by
      refine fun s hs => hs.note_unbound (List.perm_iff_count.2 fun q => ?_)
      simp only [Stock.unbound, Stock.names_append, Stock.exprs_append, Stock.names_naming,
        Stock.exprs_naming, missing, Option.isNone_none, if_true, List.append_nil, List.count_append,
        List.count_cons, List.count_nil]
      omega
    exact Contract.bind hreport fun _ _ hs => hs
  | some uri => exact carries_pure (List.append_nil _).symm (List.append_nil _).symm

theorem accounts_resolveName (name : LexicalName) (default : Option String) (offset : Nat) :
    Accounts (resolveName name default offset) (.naming QName.unbound) := by
  unfold resolveName
  split
  · exact fun t => (accounts_resolveQualifier _ offset).bind fun uri => carries_pure rfl rfl
  · exact fun t => carries_pure (by simp [QName.unbound]) (by simp)

theorem accounts_elementName (name : LexicalName) (offset : Nat) :
    Accounts (elementName name offset) (.naming QName.unbound) :=
  fun _ => (quiet_consult _).bind fun _ => accounts_resolveName name _ offset _

theorem accounts_functionName (name : LexicalName) (offset : Nat) :
    Accounts (functionName name offset) (.naming QName.unbound) :=
  fun _ => (quiet_consult _).bind fun _ => accounts_resolveName name _ offset _

theorem accounts_plainName (name : LexicalName) (offset : Nat) :
    Accounts (plainName name offset) (.naming QName.unbound) := accounts_resolveName name none offset

theorem accounts_variableName : Accounts variableName (.naming QName.unbound) := by
  refine fun _ => (quiet_expect _).bind fun _ => (quiet_observe _).bind fun offset => ?_
  exact (quiet_observe _).bind fun name => accounts_plainName name offset _

theorem accounts_nameTest (default : Option String) :
    Accounts (nameTest default) (.maybe (.naming NameTest.unbound)) := by
  refine fun _ => carries_ifEat ?_ (carries_ifEat ?_ (carries_ifEat ?_ (carries_ifEat ?_
    (accounts_none _))))
  · exact (quiet_observe _).bind fun _ => carries_pure (by simp [NameTest.unbound]) (by simp)
  · refine (quiet_observe _).bind fun offset => (quiet_observe _).bind fun qualifier => ?_
    refine (accounts_resolveQualifier qualifier offset).bind fun uri => carries_pure ?_ rfl
    cases uri <;> rfl
  · exact carries_pure (by simp [NameTest.unbound]) (by simp)
  · refine (quiet_observe _).bind fun offset => (quiet_observe _).bind fun name => ?_
    exact (accounts_resolveName name default offset).bind fun _ => carries_pure rfl rfl

theorem quiet_checkBinding (qualifier uri : String) (offset : Nat) :
    Quiet (checkBinding qualifier uri offset) :=
  quiet_ite (quiet_record (by decide) _ _) (quiet_ite (quiet_record (by decide) _ _) (quiet_pure _))

theorem quiet_checkDefaultNamespace (uri : String) (offset : Nat) :
    Quiet (checkDefaultNamespace uri offset) :=
  quiet_ite (quiet_record (by decide) _ _) (quiet_pure _)

/-! ### Kind tests -/

theorem accounts_elementTestName (isElement : Bool) :
    Accounts (elementTestName isElement) (.naming ElementName.unbound) := by
  refine fun _ => carries_ifEat ?_ (carries_ifEat ?_ (carries_unexpected _))
  · exact carries_pure (by simp [ElementName.unbound]) (by simp)
  · refine (quiet_observe _).bind fun offset => (quiet_observe _).bind fun name => ?_
    refine carries_ite (fun _ => ?_) fun _ => ?_
    · exact (accounts_elementName name offset).bind fun _ => carries_pure rfl rfl
    · exact (accounts_plainName name offset).bind fun _ => carries_pure rfl rfl

/-- The arguments of an element or attribute test. -/
def testArgs (args : Option ElementName × Option ContentType) : List String :=
  args.1.toList.flatMap ElementName.unbound ++ args.2.toList.flatMap ContentType.unbound

theorem accounts_elementTestArgs (isElement : Bool) :
    Accounts (elementTestArgs isElement) (.naming testArgs) := by
  have htype : Accounts (do
      expect Terminal.kindName
      let offset ← start
      let typeName ← elementName (← capturedQualifiedName 0) offset
      let nillable ← if isElement then eat Terminal.kindNillable else pure false
      return ContentType.mk typeName nillable) (.naming ContentType.unbound) := by
    refine fun _ => (quiet_expect _).bind fun _ => (quiet_observe _).bind fun offset => ?_
    refine (quiet_observe _).bind fun name => (accounts_elementName name offset).bind fun _ => ?_
    refine carries_ite (fun _ => ?_) fun _ => ?_
    · exact (quiet_eat _).bind fun _ => carries_pure rfl rfl
    · exact (quiet_pure false).bind fun _ => carries_pure rfl rfl
  refine fun _ => carries_ifEat (carries_pure (by simp [testArgs]) (by simp)) ?_
  refine (accounts_elementTestName isElement).bind fun name => ?_
  refine (accounts_whenEats htype).bind fun type => (quiet_expect _).bind fun _ => ?_
  exact carries_pure (by simp [testArgs]) (by simp)

theorem accounts_schemaTestName (isElement : Bool) :
    Accounts (schemaTestName isElement) (.naming QName.unbound) := by
  refine fun _ => (quiet_expect _).bind fun _ => (quiet_observe _).bind fun offset => ?_
  refine (quiet_observe _).bind fun name => carries_ite (fun _ => ?_) fun _ => ?_
  · refine (accounts_elementName name offset).bind fun _ => ?_
    exact (quiet_expect _).bind fun _ => carries_pure rfl rfl
  · refine (accounts_plainName name offset).bind fun _ => ?_
    exact (quiet_expect _).bind fun _ => carries_pure rfl rfl

theorem quiet_processingInstructionTarget : Quiet processingInstructionTarget := by
  refine fun t => carries_ifEat ?_ (carries_ifEat ?_ (quiet_pure _ t))
  · exact (quiet_observe _).bind fun _ => quiet_pure _ t
  · exact (quiet_observe _).bind fun _ => quiet_pure _ t

theorem accounts_documentTestRoot :
    Accounts documentTestRoot (.maybe (.naming KindTest.unbound)) := by
  refine fun _ => carries_ifEat ?_ (carries_ifEat ?_ (accounts_none _))
  · exact (accounts_elementTestArgs true).bind fun _ => carries_pure rfl rfl
  · exact (accounts_schemaTestName true).bind fun _ => carries_pure rfl rfl

theorem accounts_kindTest : Accounts kindTest (.maybe (.naming KindTest.unbound)) := by
  refine fun t => carries_ifEat ?_ (carries_ifEat ?_ (carries_ifEat ?_ (carries_ifEat ?_ (carries_ifEat ?_
    (carries_ifEat ?_ ?_)))))
  · refine accounts_documentTestRoot.bind fun root => (quiet_expect _).bind fun _ => ?_
    cases root <;> exact carries_pure rfl rfl
  · exact (accounts_elementTestArgs true).bind fun _ => carries_pure rfl rfl
  · exact (accounts_elementTestArgs false).bind fun _ => carries_pure rfl rfl
  · exact (accounts_schemaTestName true).bind fun _ => carries_pure rfl rfl
  · exact (accounts_schemaTestName false).bind fun _ => carries_pure rfl rfl
  · refine quiet_processingInstructionTarget.bind fun _ => (quiet_expect _).bind fun _ => ?_
    exact carries_pure (by simp [KindTest.unbound]) (by simp)
  · refine (accounts_eatFirst (f := .naming KindTest.unbound) ?_).bind ?_
    · simp only [List.forall_mem_cons]
      exact ⟨rfl, rfl, rfl, rfl, fun _ h => nomatch h⟩
    · rintro (_ | test)
      · exact carries_pure rfl rfl
      · exact (quiet_expect _).bind fun _ => carries_pure rfl rfl

/-! ### Sequence types -/

theorem quiet_occurrence : Quiet occurrence :=
  (quiet_eatFirst _).seq fun _ => quiet_pure _

theorem accounts_sequenceTypeOf {itemType : Parser ItemType}
    (h : Accounts itemType (.naming ItemType.unbound)) (resume : LexicalState) :
    Accounts (sequenceTypeOf itemType resume) (.naming SequenceType.unbound) := by
  refine fun t => (quiet_goto _).bind fun _ => carries_ifEat ?_ ?_
  · refine (quiet_goto _).bind fun _ => carries_pure ?_ ?_
    · simp [SequenceType.single, SequenceType.unbound, ItemType.unbound]
    · simp
  · have hinner : Accounts (nested itemType) (.naming ItemType.unbound) := fun t => carries_nested (h t)
    refine hinner.bind fun inner => (quiet_goto _).bind fun _ => quiet_occurrence.bind fun times => ?_
    refine (quiet_goto _).bind fun _ => carries_pure ?_ rfl
    simp [SequenceType.unbound]

theorem accounts_functionTest {itemType : Parser ItemType}
    (h : Accounts itemType (.naming ItemType.unbound)) :
    Accounts (functionTest itemType) (.naming ItemType.unbound) := by
  have hresult (params : List SequenceType) (t : Stock) :
      Carries (t ++ .all (.naming SequenceType.unbound) params) (do
        expect Terminal.kindAs
        return ItemType.functionTest params (← sequenceTypeOf itemType .kindTest))
        fun a => t ++ .naming ItemType.unbound a := by
    refine (quiet_expect _).bind fun _ => (accounts_sequenceTypeOf h _).bind fun result => ?_
    refine carries_pure ?_ ?_
    · simp [ItemType.unbound, SequenceType.unboundInAll_eq]
    · simp
  refine fun t => carries_ifEat ?_ ?_
  · have hnone := hresult [] t
    rwa [Stock.all_nil, Stock.append_empty] at hnone
  · refine (accounts_separatedBy (accounts_sequenceTypeOf h _)).bind fun params => ?_
    exact (quiet_expect _).bind fun _ => hresult params t

theorem accounts_itemTypeWithin (n : Nat) :
    Accounts (itemTypeWithin n) (.naming ItemType.unbound) := by
  induction n with
  | zero => exact fun _ => carries_exhausted
  | succ n ih =>
    refine fun t => carries_ifEat ?_ (carries_ifEat ?_ (carries_ifEat ?_ (carries_ifEat ?_
      (accounts_kindTest.bind ?_))))
    · exact carries_pure (by simp [ItemType.unbound]) (by simp)
    · exact carries_pure (by simp [ItemType.unbound]) (by simp)
    · exact accounts_functionTest ih t
    · refine ih.bind fun inner => (quiet_expect _).bind fun _ => carries_pure ?_ rfl
      simp [ItemType.unbound]
    · rintro (_ | test)
      · refine carries_ifEat ?_ (carries_unexpected _)
        refine (quiet_observe _).bind fun offset => (quiet_observe _).bind fun name => ?_
        exact (accounts_elementName name offset).bind fun name =>
          carries_pure (by simp [ItemType.unbound]) (by simp)
      · exact carries_pure (by simp [ItemType.unbound]) (by simp)

theorem accounts_sequenceType (resume : LexicalState) :
    Accounts (sequenceType resume) (.naming SequenceType.unbound) := by
  have hitem : Accounts itemType (.naming ItemType.unbound) :=
    fun _ => quiet_get.bind fun _ => accounts_itemTypeWithin _ _
  exact accounts_sequenceTypeOf hitem resume

theorem accounts_singleType : Accounts singleType (.naming SingleType.unbound) := by
  refine fun t => (quiet_goto _).bind fun _ => (quiet_expect _).bind fun _ => ?_
  refine (quiet_observe _).bind fun offset => (quiet_observe _).bind fun name => ?_
  refine (accounts_elementName name offset).bind fun _ => (quiet_goto _).bind fun _ => ?_
  exact (quiet_eat _).bind fun _ => (quiet_goto _).bind fun _ => carries_pure rfl rfl

theorem accounts_typedVariable :
    Accounts typedVariable
      (.pair (.naming QName.unbound) (.maybe (.naming SequenceType.unbound))) := by
  refine fun t => accounts_variableName.bind fun name => ?_
  refine (accounts_whenEats (accounts_sequenceType .operator)).bind fun type => ?_
  exact carries_pure (by simp) (by simp)

end XQuerySyntax.Grammar
