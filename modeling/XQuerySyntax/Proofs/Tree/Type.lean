import XQuerySyntax.Proofs.Tree.Yield

/-! Names and sequence types that parsers yield. A sequence type nests no deeper than the limit leaves
room for at the depth where it is read: each sequence type inside one is read a level deeper. Item types
in parentheses stay on their level. -/

namespace XQuerySyntax.Grammar

open XQuerySyntax.Parser

variable {o : Origin} {d : Nat} {offset : Nat}

/-! ### Names -/

theorem yields_resolveQualifier (qualifier : String) (h : o.HasPlace offset) :
    Yields o d (resolveQualifier qualifier offset) fun _ => True := by
  refine (yields_consult _).bind fun uri _ => yields_ite (fun _ => ?_) fun _ => yields_any
  exact (yields_record h _ _).bind fun _ _ => yields_any

theorem yields_resolveName (name : LexicalName) (default : Option String) (h : o.HasPlace offset) :
    Yields o d (resolveName name default offset) fun _ => True := by
  unfold resolveName
  split
  · exact (yields_resolveQualifier _ h).bind fun _ _ => yields_any
  · exact yields_any

theorem yields_elementName (name : LexicalName) (h : o.HasPlace offset) :
    Yields o d (elementName name offset) fun _ => True :=
  (yields_consult _).bind fun _ _ => yields_resolveName name _ h

theorem yields_functionName (name : LexicalName) (h : o.HasPlace offset) :
    Yields o d (functionName name offset) fun _ => True :=
  (yields_consult _).bind fun _ _ => yields_resolveName name _ h

theorem yields_plainName (name : LexicalName) (h : o.HasPlace offset) :
    Yields o d (plainName name offset) fun _ => True := yields_resolveName name none h

theorem yields_variableName : Yields o d variableName fun _ => True := by
  refine (yields_expect _).bind fun _ _ => yields_start.bind fun offset ho => ?_
  exact (yields_capturedQualifiedName 0).bind fun name _ => yields_plainName name ho

theorem yields_nameTest (default : Option String) : Yields o d (nameTest default) fun _ => True := by
  refine yields_ifEat ?_ (yields_ifEat ?_ (yields_ifEat yields_any (yields_ifEat ?_ yields_any)))
  · exact (yields_capturedName 0).bind fun _ _ => yields_any
  · refine yields_start.bind fun offset ho => (yields_capturedName 0).bind fun qualifier _ => ?_
    exact (yields_resolveQualifier qualifier ho).bind fun _ _ => yields_any
  · refine yields_start.bind fun offset ho => (yields_capturedQualifiedName 0).bind fun name _ => ?_
    exact (yields_resolveName name default ho).bind fun _ _ => yields_any

theorem yields_checkBinding (qualifier uri : String) (h : o.HasPlace offset) :
    Yields o d (checkBinding qualifier uri offset) fun _ => True :=
  yields_ite (fun _ => yields_record h _ _) fun _ =>
    yields_ite (fun _ => yields_record h _ _) fun _ => yields_any

theorem yields_checkDefaultNamespace (uri : String) (h : o.HasPlace offset) :
    Yields o d (checkDefaultNamespace uri offset) fun _ => True :=
  yields_ite (fun _ => yields_record h _ _) fun _ => yields_any

/-! ### Kind tests -/

theorem yields_elementTestName (isElement : Bool) :
    Yields o d (elementTestName isElement) fun _ => True := by
  refine yields_ifEat yields_any (yields_ifEat ?_ (yields_unexpected _))
  refine yields_start.bind fun offset ho => (yields_capturedQualifiedName 0).bind fun name _ => ?_
  refine yields_ite (fun _ => ?_) fun _ => ?_
  · exact (yields_elementName name ho).bind fun _ _ => yields_any
  · exact (yields_plainName name ho).bind fun _ _ => yields_any

theorem yields_elementTestArgs (isElement : Bool) :
    Yields o d (elementTestArgs isElement) fun _ => True := by
  have htype : Yields o d (do
      expect Terminal.kindName
      let offset ← start
      let typeName ← elementName (← capturedQualifiedName 0) offset
      let nillable ← if isElement then eat Terminal.kindNillable else pure false
      return ContentType.mk typeName nillable) fun _ => True := by
    refine (yields_expect _).bind fun _ _ => yields_start.bind fun offset ho => ?_
    refine (yields_capturedQualifiedName 0).bind fun name _ => ?_
    refine (yields_elementName name ho).bind fun _ _ => yields_ite (fun _ => ?_) fun _ => ?_
    · exact (yields_eat _).bind fun _ _ => yields_any
    · exact yields_any (a := false).bind fun _ _ => yields_any
  refine yields_ifEat yields_any ((yields_elementTestName isElement).bind fun name _ => ?_)
  exact (yields_whenEats htype).bind fun _ _ => (yields_expect _).bind fun _ _ => yields_any

theorem yields_schemaTestName (isElement : Bool) :
    Yields o d (schemaTestName isElement) fun _ => True := by
  refine (yields_expect _).bind fun _ _ => yields_start.bind fun offset ho => ?_
  refine (yields_capturedQualifiedName 0).bind fun name _ => yields_ite (fun _ => ?_) fun _ => ?_
  · exact (yields_elementName name ho).bind fun _ _ => (yields_expect _).bind fun _ _ => yields_any
  · exact (yields_plainName name ho).bind fun _ _ => (yields_expect _).bind fun _ _ => yields_any

theorem yields_processingInstructionTarget :
    Yields o d processingInstructionTarget fun _ => True := by
  refine yields_ifEat ?_ (yields_ifEat ?_ yields_any)
  · exact (yields_capturedName 0).bind fun _ _ => yields_any
  · exact (yields_capturedString 0).bind fun _ _ => yields_any

/-- Inside a document test only an element is tested for. -/
theorem yields_documentTestRoot :
    Yields o d documentTestRoot fun root => (KindTest.document root).WellFormed := by
  refine yields_ifEat ?_ (yields_ifEat ?_ (yields_pure trivial))
  · exact (yields_elementTestArgs true).bind fun _ _ => yields_pure trivial
  · exact (yields_schemaTestName true).bind fun _ _ => yields_pure trivial

theorem yields_kindTest : Yields o d kindTest fun found => ∀ test ∈ found, test.WellFormed := by
  refine yields_ifEat ?_ (yields_ifEat ?_ (yields_ifEat ?_ (yields_ifEat ?_ (yields_ifEat ?_
    (yields_ifEat ?_ ((yields_eatFirst _).bind ?_))))))
  · refine yields_documentTestRoot.bind fun root hroot => ?_
    exact (yields_expect _).bind fun _ _ => yields_some hroot
  · exact (yields_elementTestArgs true).bind fun _ _ => yields_some trivial
  · exact (yields_elementTestArgs false).bind fun _ _ => yields_some trivial
  · exact (yields_schemaTestName true).bind fun _ _ => yields_some trivial
  · exact (yields_schemaTestName false).bind fun _ _ => yields_some trivial
  · refine yields_processingInstructionTarget.bind fun _ _ => ?_
    exact (yields_expect _).bind fun _ _ => yields_some trivial
  · rintro (_ | test) htest
    · exact yields_none
    · refine (yields_expect _).bind fun _ _ => yields_some ?_
      have hmem := htest test rfl
      simp only [List.map_cons, List.map_nil, List.mem_cons, List.not_mem_nil, or_false] at hmem
      rcases hmem with rfl | rfl | rfl | rfl <;> trivial

/-! ### Sequence types -/

theorem yields_occurrence : Yields o d occurrence fun _ => True :=
  (yields_eatFirst _).bind fun _ _ => yields_any

/-- Item types inside one another leave as much room as the depth where they begin. -/
abbrev HasRoom (o : Origin) (d : Nat) (t : SequenceType) : Prop :=
  t.WellFormed ∧ t.depth ≤ o.limit - d

/-- An item type whose sequence types have room. -/
abbrev HasRoomInside (o : Origin) (d : Nat) (t : ItemType) : Prop :=
  t.WellFormed ∧ t.depthInside ≤ o.limit - d

theorem yields_sequenceTypeOf {itemType : Parser ItemType}
    (h : Yields o (d + 1) itemType (HasRoomInside o (d + 1))) (resume : LexicalState) :
    Yields o d (sequenceTypeOf itemType resume) (HasRoom o d) := by
  refine (yields_goto _).bind fun _ _ => yields_ifEat ?_ ?_
  · exact (yields_goto resume).bind fun _ _ => yields_pure ⟨.empty, Nat.zero_le _⟩
  · have hnested : Yields o d (nested itemType) fun t =>
        d + 1 ≤ o.limit ∧ HasRoomInside o (d + 1) t :=
      yields_nested fun hd => h.weaken fun t ht => ⟨hd, ht⟩
    refine hnested.bind fun inner ⟨hd, hwf, hroom⟩ => (yields_goto _).bind fun _ _ => ?_
    refine yields_occurrence.bind fun times _ => (yields_goto resume).bind fun _ _ => ?_
    refine yields_pure ⟨.items times hwf, ?_⟩
    have hdepth : (SequenceType.mk inner times).depth = inner.depthInside + 1 := by
      cases hwf <;> rfl
    rw [hdepth]
    omega

theorem yields_functionTest {itemType : Parser ItemType}
    (h : Yields o (d + 1) itemType (HasRoomInside o (d + 1))) :
    Yields o d (functionTest itemType) (HasRoomInside o d) := by
  have hresult (params : List SequenceType) (hp : ∀ p ∈ params, HasRoom o d p) :
      Yields o d (do
        expect Terminal.kindAs
        return ItemType.functionTest params (← sequenceTypeOf itemType .kindTest))
        (HasRoomInside o d) := by
    refine (yields_expect _).bind fun _ _ => (yields_sequenceTypeOf h _).bind fun t ht => ?_
    refine yields_pure ⟨.functionTest (fun p hp' => (hp p hp').1) ht.1, ?_⟩
    exact Nat.max_le.2 ⟨SequenceType.depthOfAll_le fun p hp' => (hp p hp').2, ht.2⟩
  refine yields_ifEat (hresult [] fun _ h => nomatch h) ?_
  refine (yields_separatedBy (yields_sequenceTypeOf h _)).bind fun params hp => ?_
  exact (yields_expect _).bind fun _ _ => hresult params hp.2

theorem yields_itemTypeWithin (n : Nat) :
    Yields o d (itemTypeWithin n) (HasRoomInside o d) := by
  induction n generalizing d with
  | zero => exact yields_exhausted
  | succ n ih =>
    refine yields_ifEat (yields_pure ⟨.item, Nat.zero_le _⟩)
      (yields_ifEat (yields_pure ⟨.anyFunction, Nat.zero_le _⟩)
        (yields_ifEat ?_ (yields_ifEat ?_ (yields_kindTest.bind ?_))))
    · exact yields_functionTest ih
    · refine ih.bind fun inner hinner => (yields_expect _).bind fun _ _ => ?_
      exact yields_pure ⟨.parenthesized hinner.1, hinner.2⟩
    · rintro (_ | test) htest
      · refine yields_ifEat ?_ (yields_unexpected _)
        refine yields_start.bind fun offset ho => (yields_capturedQualifiedName 0).bind fun name _ => ?_
        exact (yields_elementName name ho).bind fun name _ =>
          yields_pure ⟨.atomicOrUnion name, Nat.zero_le _⟩
      · exact yields_pure ⟨.kindTest (htest test rfl), Nat.zero_le _⟩

theorem yields_sequenceType (resume : LexicalState) :
    Yields o d (sequenceType resume) (SequenceType.Sound o) := by
  have hitem : Yields o (d + 1) itemType (HasRoomInside o (d + 1)) :=
    yields_get.bind fun _ _ => yields_itemTypeWithin _
  exact (yields_sequenceTypeOf hitem resume).weaken fun t ht =>
    ⟨ht.1, ht.2.trans (Nat.sub_le _ _)⟩

theorem yields_singleType : Yields o d singleType fun _ => True := by
  refine (yields_goto _).bind fun _ _ => (yields_expect _).bind fun _ _ => ?_
  refine yields_start.bind fun offset ho => (yields_capturedQualifiedName 0).bind fun name _ => ?_
  refine (yields_elementName name ho).bind fun _ _ => (yields_goto _).bind fun _ _ => ?_
  exact (yields_eat _).bind fun _ _ => (yields_goto _).bind fun _ _ => yields_any

theorem yields_typedVariable :
    Yields o d typedVariable fun v => ∀ t ∈ v.2, t.Sound o :=
  yields_variableName.bind fun _ _ => (yields_whenEats (yields_sequenceType .operator)).bind
    fun _ ht => yields_pure ht

end XQuerySyntax.Grammar
