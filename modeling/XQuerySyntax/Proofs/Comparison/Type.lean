import XQuerySyntax.Proofs.Comparison.Forms

/-! Names, sequence types, and sequences of expressions in two runs. Names and types hold no offsets and
belong to no extension, so the runs read the same ones. -/

namespace XQuerySyntax.Grammar

open XQuerySyntax.Parser Comparison

variable {S : Comparison} {o o' : Nat}

/-! ### Names -/

theorem pairs_resolveQualifier (ho : S.offset.like o o') (qualifier : String) :
    S.Pairs .plain (resolveQualifier qualifier o) (resolveQualifier qualifier o') := by
  refine fun t => .then (pairs_consult _ (fun _ _ h => h.resolve? qualifier) t) fun uri =>
    .ite (fun _ => ?_) fun _ => .plain uri
  exact .then (pairs_record ho _ _ t) fun _ => .plain uri

theorem pairs_resolveName (ho : S.offset.like o o') (name : LexicalName) (default : Option String) :
    S.Pairs .plain (resolveName name default o) (resolveName name default o') := by
  intro t
  unfold resolveName
  cases name.qualifier with
  | some q => exact .then (pairs_resolveQualifier ho q t) fun _ => .plain _
  | none => exact .plain _

theorem pairs_elementName (ho : S.offset.like o o') (name : LexicalName) :
    S.Pairs .plain (elementName name o) (elementName name o') :=
  fun t => .then (pairs_consult _ (fun _ _ h => h.elementNamespace?) t) fun default =>
    pairs_resolveName ho name default t

theorem pairs_functionName (ho : S.offset.like o o') (name : LexicalName) :
    S.Pairs .plain (functionName name o) (functionName name o') :=
  fun t => .then (pairs_consult _ (fun _ _ h => h.functionNamespace?) t) fun default =>
    pairs_resolveName ho name default t

theorem pairs_plainName (ho : S.offset.like o o') (name : LexicalName) :
    S.Pairs .plain (plainName name o) (plainName name o') := pairs_resolveName ho name none

theorem pairs_variableName : S.Pairs .plain variableName variableName := by
  refine fun t => .then (fresh_expect S.core_kept) fun _ => .seq agree_start fun o o' ho => ?_
  exact .then (agree_capturedQualifiedName 0) fun name => .settle (pairs_plainName ho name t)

theorem pairs_nameTest (default : Option String) :
    S.Pairs .plain (nameTest default) (nameTest default) := by
  refine fun t => agree_ifReads S.core_kept ?_ (agree_ifReads S.core_kept ?_ (agree_ifEat S.core_kept ?_ (agree_ifReads S.core_kept ?_ (.plain _))))
  · exact .then (agree_capturedName 0) fun _ => .settle (.plain _)
  · refine .seq agree_start fun o o' ho => .then (agree_capturedName 0) fun qualifier => ?_
    exact .settle (.then (pairs_resolveQualifier ho qualifier t) fun _ => .plain _)
  · exact .plain _
  · refine .seq agree_start fun o o' ho => .then (agree_capturedQualifiedName 0) fun name => ?_
    exact .settle (.then (pairs_resolveName ho name default t) fun _ => .plain _)

theorem pairs_checkBinding (ho : S.offset.like o o') (qualifier uri : String) :
    S.Pairs .plain (checkBinding qualifier uri o) (checkBinding qualifier uri o') := by
  refine fun t => .ite (fun _ => pairs_record ho _ _ t) fun _ => ?_
  exact .ite (fun _ => pairs_record ho _ _ t) fun _ => .plain _

theorem pairs_checkDefaultNamespace (ho : S.offset.like o o') (uri : String) :
    S.Pairs .plain (checkDefaultNamespace uri o) (checkDefaultNamespace uri o') :=
  fun t => .ite (fun _ => pairs_record ho _ _ t) fun _ => .plain _

/-! ### Kind tests -/

theorem pairs_elementTestName (isElement : Bool) :
    S.Pairs .plain (elementTestName isElement) (elementTestName isElement) := by
  refine fun t => agree_ifEat S.core_kept (.plain _) (agree_ifReads S.core_kept ?_ (agree_unexpected _))
  refine .seq agree_start fun o o' ho => .then (agree_capturedQualifiedName 0) fun name => ?_
  refine .settle (t := t) (.ite (fun _ => ?_) fun _ => ?_)
  · exact .then (pairs_elementName ho name t) fun _ => .plain _
  · exact .then (pairs_plainName ho name t) fun _ => .plain _

theorem pairs_elementTestArgs (isElement : Bool) :
    S.Pairs .plain (elementTestArgs isElement) (elementTestArgs isElement) := by
  refine fun t => agree_ifEat S.core_kept (.plain _) (.then (pairs_elementTestName isElement t) fun name => ?_)
  refine .then (agree_whenPlain S.core_kept fun t => ?_) fun _ => .then (agree_expect S.core_kept) fun _ => .plain _
  refine .then (fresh_expect S.core_kept) fun _ => .seq agree_start fun o o' ho => ?_
  refine .then (agree_capturedQualifiedName 0) fun typeName => ?_
  refine .settle (.then (pairs_elementName ho typeName t) fun _ => .ite (fun _ => ?_) fun _ => ?_)
  · exact .then (agree_eat S.core_kept) fun _ => .plain _
  · exact .then (.plain false) fun _ => .plain _

theorem pairs_schemaTestName (isElement : Bool) :
    S.Pairs .plain (schemaTestName isElement) (schemaTestName isElement) := by
  refine fun t => .then (fresh_expect S.core_kept) fun _ => .seq agree_start fun o o' ho => ?_
  refine .then (agree_capturedQualifiedName 0) fun name => ?_
  refine .settle (t := t) (.ite (fun _ => ?_) fun _ => ?_)
  · exact .then (pairs_elementName ho name t) fun _ => .then (agree_expect S.core_kept) fun _ => .plain _
  · exact .then (pairs_plainName ho name t) fun _ => .then (agree_expect S.core_kept) fun _ => .plain _

theorem pairs_processingInstructionTarget :
    S.Pairs .plain processingInstructionTarget processingInstructionTarget := by
  refine fun t => agree_ifReads S.core_kept ?_ (agree_ifReads S.core_kept ?_ (.plain _))
  · exact .then (agree_capturedName 0) fun _ => .settle (.plain _)
  · exact .then (agree_capturedString 0) fun _ => .settle (.plain _)

theorem pairs_documentTestRoot : S.Pairs .plain documentTestRoot documentTestRoot := by
  refine fun t => agree_ifEat S.core_kept ?_ (agree_ifEat S.core_kept ?_ (.plain _))
  · exact .then (pairs_elementTestArgs true t) fun _ => .plain _
  · exact .then (pairs_schemaTestName true t) fun _ => .plain _

theorem pairs_kindTest : S.Pairs .plain kindTest kindTest := by
  refine fun t => agree_ifEat S.core_kept ?_ (agree_ifEat S.core_kept ?_ (agree_ifEat S.core_kept ?_ (agree_ifEat S.core_kept ?_ (agree_ifEat S.core_kept ?_
    (agree_ifEat S.core_kept ?_ (.then (agree_eatFirst S.core_kept (by decide)) ?_))))))
  · exact .then (pairs_documentTestRoot t) fun _ => .then (agree_expect S.core_kept) fun _ => .plain _
  · exact .then (pairs_elementTestArgs true t) fun _ => .plain _
  · exact .then (pairs_elementTestArgs false t) fun _ => .plain _
  · exact .then (pairs_schemaTestName true t) fun _ => .plain _
  · exact .then (pairs_schemaTestName false t) fun _ => .plain _
  · exact .then (pairs_processingInstructionTarget t) fun _ => .then (agree_expect S.core_kept) fun _ => .plain _
  · rintro (_ | test)
    · exact .plain none
    · exact .then (agree_expect S.core_kept) fun _ => .plain _

/-! ### Sequence types -/

theorem pairs_occurrence : S.Pairs .plain occurrence occurrence :=
  fun t => .then (agree_eatFirst S.core_kept (by decide)) fun _ => .plain _

section

variable {itemType itemType' : Parser ItemType}

theorem pairs_sequenceTypeOf (h : S.Pairs .plain itemType itemType') {resume : LexicalState}
    (hr : resume.isMarkup = false) :
    S.Pairs .plain (sequenceTypeOf itemType resume) (sequenceTypeOf itemType' resume) := by
  refine fun t => .then (pairs_goto rfl t) fun _ => agree_ifEat S.core_kept ?_ ?_
  · exact .then (pairs_goto hr t) fun _ => .plain _
  · refine .then (pairs_nested h t) fun inner => .then (pairs_goto rfl t) fun _ => ?_
    exact .then (pairs_occurrence t) fun _ => .then (pairs_goto hr t) fun _ => .plain _

theorem pairs_functionTest (h : S.Pairs .plain itemType itemType') :
    S.Pairs .plain (functionTest itemType) (functionTest itemType') := by
  have hresult (params : List SequenceType) : S.Pairs .plain
      (do
        expect Terminal.kindAs
        return ItemType.functionTest params (← sequenceTypeOf itemType .kindTest))
      (do
        expect Terminal.kindAs
        return ItemType.functionTest params (← sequenceTypeOf itemType' .kindTest)) :=
    fun t => .then (agree_expect S.core_kept) fun _ => .then (pairs_sequenceTypeOf h rfl t) fun _ => .plain _
  refine fun t => agree_ifEat S.core_kept (hresult [] t) ?_
  refine .then (agree_separatedPlain S.core_kept (pairs_sequenceTypeOf h rfl)) fun params => ?_
  exact .then (agree_expect S.core_kept) fun _ => hresult params t

end

theorem pairs_itemTypeWithin {n n' : Nat} (hn : S.rounds.like n n') :
    S.Pairs .plain (itemTypeWithin n) (itemTypeWithin n') := by
  induction n generalizing n' with
  | zero => exact fun _ => agree_zero itemTypeWithin hn rfl
  | succ n ih =>
    obtain ⟨m, rfl, hm⟩ := rounds_succ hn
    refine fun t => agree_ifEat S.core_kept (.plain _) (agree_ifEat S.core_kept (.plain _) (agree_ifEat S.core_kept ?_ (agree_ifEat S.core_kept ?_
      (.then (pairs_kindTest t) ?_))))
    · exact pairs_functionTest (ih hm) t
    · exact .then (ih hm t) fun _ => .then (agree_expect S.core_kept) fun _ => .plain _
    · rintro (_ | test)
      · refine agree_ifReads S.core_kept ?_ (agree_unexpected _)
        refine .seq agree_start fun o o' ho => .then (agree_capturedQualifiedName 0) fun name => ?_
        exact .settle (.then (pairs_elementName ho name t) fun _ => .plain _)
      · exact .plain _

theorem pairs_sequenceType {resume : LexicalState} (hr : resume.isMarkup = false) :
    S.Pairs .plain (sequenceType resume) (sequenceType resume) := by
  refine pairs_sequenceTypeOf (fun t => ?_) hr
  exact .look (L := S.rounds) (fun _ _ h => rounds_like h) fun _ _ hn => pairs_itemTypeWithin hn t

theorem pairs_singleType : S.Pairs .plain singleType singleType := by
  refine fun t => .then (pairs_goto rfl t) fun _ => .then (fresh_expect S.core_kept) fun _ => ?_
  refine .seq agree_start fun o o' ho => .then (agree_capturedQualifiedName 0) fun name => ?_
  refine .settle (.then (pairs_elementName ho name t) fun _ => .then (pairs_goto rfl t) fun _ => ?_)
  exact .then (agree_eat S.core_kept) fun _ => .then (pairs_goto rfl t) fun _ => .plain _

theorem pairs_typedVariable : S.Pairs .plain typedVariable typedVariable := by
  refine fun t => .then (pairs_variableName t) fun _ => ?_
  exact .then (agree_whenPlain S.core_kept (pairs_sequenceType rfl)) fun _ => .plain _

end XQuerySyntax.Grammar

/-! ### Sequences of expressions -/

namespace XQuerySyntax.Grammar

open XQuerySyntax.Parser Comparison

attribute [local simp] owes_kind ExprKind.belongsTo ExprKind.children ComputedName.children or_assoc

variable {S : Comparison} {o o' : Nat} {single single' : Parser Expr}

theorem pairs_expr (h : S.Pairs S.expr single single') :
    S.Pairs S.expr (expr single) (expr single') := by
  refine fun t => .andThen (h t) fun first first' hf => agree_unlessPeek rfl ?_ ?_
  · exact .pure hf Iff.rfl fun _ _ h => h
  · refine .bind (agree_many (agree_whenEats S.core_kept h)) fun rest rest' hr => ?_
    exact agree_node (congrArg ExprKind.sequence (map_of_like (.cons hf hr))) (like_offset hf) (by simp)

theorem pairs_exprUpToBrace? (h : S.Pairs S.expr single single') :
    S.Pairs (.option S.expr) (exprUpToBrace? single) (exprUpToBrace? single') := by
  refine fun t => agree_ifEat S.core_kept .absent (.andThen (pairs_expr h t) fun e e' he => ?_)
  exact .then (agree_expect S.core_kept) fun _ => .pure (.some he) (by simp) fun _ _ h => h

theorem pairs_exprUpToBrace (h : S.Pairs S.expr single single') (ho : S.offset.like o o') :
    S.Pairs S.expr (exprUpToBrace single o) (exprUpToBrace single' o') := by
  refine fun t => .andThen (pairs_exprUpToBrace? h t) ?_
  rintro _ _ (he | _)
  · exact .pure he (by simp) fun _ _ h => h
  · exact agree_node rfl ho (by simp)

theorem pairs_enclosedExpr (h : S.Pairs S.expr single single') :
    S.Pairs S.expr (enclosedExpr single) (enclosedExpr single') := by
  refine fun t => .then (fresh_expect S.core_kept) fun _ => .seq agree_start fun o o' ho => ?_
  exact .settle (pairs_exprUpToBrace h ho t)

theorem pairs_bracedExpr (h : S.Pairs S.expr single single') :
    S.Pairs S.expr (bracedExpr single) (bracedExpr single') := by
  refine fun t => .then (agree_expect S.core_kept) fun _ => .andThen (pairs_expr h t) fun e e' he => ?_
  exact .then (agree_expect S.core_kept) fun _ => .pure he Iff.rfl fun _ _ h => h

theorem pairs_optionalExpr (h : S.Pairs S.expr single single') :
    S.Pairs (.option S.expr) (optionalExpr single) (optionalExpr single') :=
  fun t => .then (agree_expect S.core_kept) fun _ => pairs_exprUpToBrace? h t

theorem pairs_parenthesizedExpr (h : S.Pairs S.expr single single') :
    S.Pairs S.expr (parenthesizedExpr single) (parenthesizedExpr single') := by
  refine fun t => .then (agree_expect S.core_kept) fun _ => .andThen (pairs_expr h t) fun e e' he => ?_
  exact .then (agree_expect S.core_kept) fun _ => .pure he Iff.rfl fun _ _ h => h

/-- A pragma begins at the same place in both runs, and says the same. -/
theorem pairs_pragma? : S.Pairs (.option (.prod .plain S.offset)) pragma? pragma? := by
  refine fun t => agree_whenReads S.core_kept ?_
  refine .seq agree_start fun o o' ho => .then (agree_capturedQualifiedName 0) fun name => ?_
  refine .settle (t := .behind) (.then (pairs_plainName ho name .behind) fun _ => ?_)
  refine .then (agree_lexeme (scanDelimited_within _ _)) fun contents => ?_
  exact .pure ⟨rfl, ho⟩ (by simp) fun _ _ h => h.behind

/-- Pragmas are read behind a test for one, so the last tokens are the same. -/
theorem agree_pragmas (t : Stage) : S.Agree False (S.Near t.seen) pragmas pragmas
    (.prod .plain S.offset) fun _ => S.Near t.seen := by
  refine .andThen (agree_many (pairs_pragma? _)) fun found found' hfound => ?_
  have hfree (ps : List (Pragma × Nat)) :
      (Likeness.list (.prod .plain S.offset)).owes ps ↔ False := by simp [Likeness.list]
  refine .shows ?_ (hfree found).symm
  cases hfound with
  | nil => exact .seq agree_start_seen fun o o' ho => .pure ⟨rfl, ho⟩ (by simp) fun _ _ h => h
  | cons hp hps =>
    refine .pure ⟨?_, hp.2⟩ (by simp) fun _ _ h => h
    exact congrArg₂ List.cons hp.1 (List.forall₂_eq_eq_eq ▸ List.rel_map (fun _ _ h => h.1) hps)

theorem agree_extensionExpr (h : S.Pairs S.expr single single') (t : Stage) :
    S.Agree False (S.Near t.seen) (extensionExpr single) (extensionExpr single') S.expr
      fun _ => S.Near t.seen := by
  refine .seq (agree_pragmas t) ?_
  rintro ⟨ps, o⟩ ⟨_, o'⟩ ⟨rfl, ho⟩
  refine .andThen (pairs_optionalExpr h _) fun e e' he => ?_
  exact agree_node (congrArg (ExprKind.extension ps) (option_map_of_like he)) ho (by simp)

end XQuerySyntax.Grammar
