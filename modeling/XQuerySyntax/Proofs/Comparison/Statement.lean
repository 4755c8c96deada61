import XQuerySyntax.Proofs.Comparison.Flwor

/-! Updates, statements and functions in two runs. The first word of an update or a statement belongs
to an extension, and so does the form that it makes; inside it the rules of the extension match in both
runs or the first one is lost already. -/

namespace XQuerySyntax.Grammar

open XQuerySyntax.Parser Comparison

attribute [local simp] owes_kind ExprKind.belongsTo ExprKind.children ComputedName.children or_assoc

variable {S : Comparison} {o o' : Nat} {single single' : Parser Expr}

/-! ### Updates -/

theorem pairs_insertPosition (hu : ¬S.Drops .update) :
    S.Pairs .plain insertPosition insertPosition := by
  refine fun t => .then (agree_eatFirst hu (by decide)) ?_
  rintro (_ | position)
  · exact agree_unexpected _
  · exact .plain position

theorem pairs_replace (h : S.Pairs S.expr single single') (valueOf : Bool) :
    S.PairsOn (S.Drops .update) S.kind (replace single valueOf) (replace single' valueOf) := by
  refine fun t => .bind (h t) fun target target' ht => ?_
  refine .thenIf (fun hn => agree_expect (mt .inl hn)) fun _ => ?_
  refine .bind (h t) fun replacement replacement' hr => ?_
  exact agree_form (congrArg₂ (ExprKind.replace valueOf) ht hr) (by simp)

theorem pairs_copyBinding (h : S.Pairs S.expr single single') :
    S.Pairs S.variableBinding (copyBinding single) (copyBinding single') := by
  refine fun t => .then (pairs_variableName t) fun name => .then (agree_expect S.core_kept) fun _ => ?_
  exact .andThen (h t) fun value value' hv => .give (congrArg (VariableBinding.mk name none) hv) (by simp)

theorem pairs_transform (h : S.Pairs S.expr single single') :
    S.PairsOn (S.Drops .update) S.kind (transform single) (transform single') := by
  refine fun t => .bind (agree_separatedBy S.core_kept (pairs_copyBinding h)) fun bindings bindings' hb => ?_
  refine .thenIf (fun hn => agree_expect (mt .inl hn)) fun _ => ?_
  refine .bind (h t) fun modify modify' hm => .then (agree_expect S.core_kept) fun _ => ?_
  refine .bind (h t) fun result result' hr => ?_
  exact agree_form (congrArg₃ ExprKind.transform (map_of_like hb) hm hr) (by simp)

theorem pairs_updateKind (h : S.Pairs S.expr single single') :
    S.Pairs S.kind.option (updateKind single) (updateKind single') := by
  refine fun t => uses_ifFirst (x := .update) (by decide) ?_ (uses_ifFirst (x := .update) (by decide) ?_
    (uses_ifEat (x := .update) rfl ?_ (uses_ifEat (x := .update) rfl ?_
      (uses_ifEat (x := .update) rfl ?_ ?_))))
  · refine .bind (h t) fun source source' hs => ?_
    refine .thenIf (fun hn => pairs_insertPosition (mt (fun hu => .inl (.inr hu)) hn) t) fun position => ?_
    refine .bind (h t) fun target target' ht => ?_
    exact agree_someForm (congrArg₂ (ExprKind.insert · position ·) hs ht) (by simp)
  · exact .bind (h t) fun target target' ht => agree_someForm (congrArg ExprKind.delete ht) (by simp)
  · exact .found ((pairs_replace h true t).shows (by simp))
  · exact .found ((pairs_replace h false t).shows (by simp))
  · refine .bind (h t) fun target target' ht => ?_
    refine .thenIf (fun hn => agree_expect (mt (fun hu => .inl (.inr hu)) hn)) fun _ => ?_
    refine .bind (h t) fun name name' hname => ?_
    exact agree_someForm (congrArg₂ ExprKind.rename ht hname) (by simp)
  · refine uses_ifEat (x := .update) rfl ?_ .absent
    exact .found ((pairs_transform h t).shows (by simp))

theorem pairs_updateExpr (h : S.Pairs S.expr single single') :
    S.Pairs S.expr.option (updateExpr single) (updateExpr single') := by
  refine fun t => .seq (pairs_nextOffset t) fun o o' ho => .andThen (pairs_updateKind h t) ?_
  rintro _ _ (hk | _)
  · exact .found (agree_node hk ho (by simp))
  · exact .give .none (by simp)

/-! ### Statements -/

theorem pairs_blockVariable (h : S.Pairs S.expr single single') :
    S.Pairs S.blockVarDecl (blockVariable single) (blockVariable single') := by
  refine fun t => .then (pairs_typedVariable t) fun v => .andThen (agree_whenEats S.core_kept h) fun value value' hv => ?_
  exact .give (congrArg (BlockVarDecl.mk v.1 v.2) (option_map_of_like hv)) (by simp)

theorem pairs_blockDeclaration (hs : ¬S.Drops .scripting) (h : S.Pairs S.expr single single') :
    S.Pairs S.blockVarDecl.list.option (blockDeclaration single) (blockDeclaration single') := by
  refine fun t => agree_whenEats hs (fun t => ?_)
  refine .andThen (agree_separatedBy S.core_kept (pairs_blockVariable h)) fun declared declared' hd => ?_
  exact .then (agree_expect hs) fun _ => .give hd Iff.rfl

theorem pairs_blockStatement (hs : ¬S.Drops .scripting) (h : S.Pairs S.expr single single')
    {body body' : List Expr} (hb : S.expr.list.like body body') :
    S.PairsOn (S.expr.list.owes body) (.sum S.expr.list S.expr.list) (blockStatement single body)
      (blockStatement single' body') := by
  refine fun t => agree_ifEat S.core_kept (.give hb Iff.rfl) (.bind (pairs_expr h t) fun e e' he => ?_)
  refine agree_ifEat hs (.give (like_concat hb he) (by simp)) ?_
  exact .then (agree_expect S.core_kept) fun _ => .give (like_concat hb he) (by simp)

theorem pairs_blockBody (h : S.Pairs S.expr single single') (ho : S.offset.like o o') :
    S.PairsOn (S.Drops .scripting) S.expr (blockBody single o) (blockBody single' o') := by
  intro t
  refine .bindIf (fun hs => agree_many (pairs_blockDeclaration hs h t)) fun ds ds' hd => ?_
  refine .bindIf (L := S.expr.list) (Q := fun _ => S.Near t) (fun hn => ?_) fun body body' hb => ?_
  · exact .shows (agree_iterate (fun body body' hb =>
      pairs_blockStatement (mt .inl hn) h hb t) .nil) (by simp)
  · exact agree_node (congrArg₂ ExprKind.block (map_of_like (like_flatten hd)) (map_of_like hb)) ho (by simp)

theorem pairs_statementKind (h : S.Pairs S.expr single single') :
    S.Pairs S.kind.option (statementKind single) (statementKind single') := by
  refine fun t => uses_ifEat (x := .scripting) rfl ?_ (uses_ifFirst (x := .scripting) (by decide) ?_
    (uses_ifEat (x := .scripting) rfl ?_ (uses_ifEat (x := .scripting) rfl ?_
      (uses_ifEat (x := .scripting) rfl ?_ (uses_ifReads (x := .scripting) rfl ?_ .absent)))))
  · refine .bind (pairs_parenthesizedExpr h t) fun condition condition' hc => ?_
    refine .then (pairs_goto rfl t) fun _ => .bind (h t) fun body body' hb => ?_
    exact agree_someForm (congrArg₂ ExprKind.whileLoop hc hb) (by simp)
  · exact .bind (h t) fun value value' hv => agree_someForm (congrArg ExprKind.exit hv) (by simp)
  · exact agree_someForm rfl (by simp)
  · exact agree_someForm rfl (by simp)
  · refine .then (pairs_variableName t) fun name => .then (agree_expect S.core_kept) fun _ => ?_
    exact .bind (h t) fun value value' hv => agree_someForm (congrArg (ExprKind.assign name) hv) (by simp)
  · refine .seq agree_start fun o o' ho => .then (agree_capturedQualifiedName 0) fun name => ?_
    refine .settle (t := t) (.then (pairs_plainName ho name t) fun name => ?_)
    exact .bind (h t) fun value value' hv => agree_someForm (congrArg (ExprKind.assign name) hv) (by simp)

theorem pairs_scriptingExpr (h : S.Pairs S.expr single single') :
    S.Pairs S.expr.option (scriptingExpr single) (scriptingExpr single') := by
  refine fun t => .seq (pairs_nextOffset t) fun o o' ho => uses_ifEat (x := .scripting) rfl ?_ ?_
  · exact .then (agree_expect S.core_kept) fun _ => .found ((pairs_blockBody h ho t).shows (by simp))
  · refine .andThen (pairs_statementKind h t) ?_
    rintro _ _ (hk | _)
    · exact .found (agree_node hk ho (by simp))
    · exact .give .none (by simp)

theorem pairs_queryStatement (hs : ¬S.Drops .scripting) (h : S.Pairs S.expr single single')
    {body body' : List Expr} (hb : S.expr.list.like body body') :
    S.PairsOn (S.expr.list.owes body) (.sum S.expr.list S.expr.list) (queryStatement single body)
      (queryStatement single' body') := by
  refine fun t => .then (pairs_atEnd t) fun _ => .ite (fun _ => .give hb Iff.rfl) fun _ => ?_
  refine .bind (pairs_expr h t) fun e e' he => ?_
  exact agree_ifEat hs (.give (like_concat hb he) (by simp)) (.give (like_concat hb he) (by simp))

theorem pairs_queryBody (h : S.Pairs S.expr single single') :
    S.Pairs S.expr (queryBody single) (queryBody single') := by
  refine fun t => .seq (pairs_nextOffset t) fun o o' ho => ?_
  refine .andThen (pairs_expr h t) fun first first' hf => uses_unlessEat (x := .scripting) rfl ?_ ?_
  · exact .give hf Iff.rfl
  · refine .bindKeep (L := S.expr.list) (Q := fun _ => S.Near t) (fun hs => ?_) fun body body' hb => ?_
    · exact .shows (agree_iterate (fun body body' hb => pairs_queryStatement hs h hb t)
        (like_singleton hf)) (by simp)
    · exact agree_node (congrArg (ExprKind.block []) (map_of_like hb)) ho (by simp)

/-! ### Functions -/

theorem pairs_annotationLiteral : S.Pairs .plain annotationLiteral annotationLiteral := by
  refine fun t => agree_ifReads S.core_kept ?_ (agree_ifReads S.core_kept ?_ (agree_unexpected _))
  · exact .then (agree_capturedString 0) fun _ => .settle (.plain _)
  · exact .then (agree_capturedNumber? 0) fun _ => .settle (.plain _)

theorem pairs_annotationLiterals : S.Pairs .plain annotationLiterals annotationLiterals := by
  refine fun t => agree_ifEat S.core_kept ?_ (.plain _)
  refine .then (agree_separatedPlain S.core_kept pairs_annotationLiteral) fun _ => ?_
  exact .then (agree_expect S.core_kept) fun _ => .plain _

theorem pairs_annotation? : S.Pairs (.option (.prod .plain S.offset)) annotation? annotation? := by
  refine fun t => agree_whenReads S.core_kept ?_
  refine .seq agree_start fun o o' ho => .then (agree_capturedQualifiedName 0) fun name => ?_
  refine .settle (t := t) (.then (pairs_resolveName ho name _ t) fun name => ?_)
  exact .then (pairs_annotationLiterals t) fun _ => .give ⟨rfl, ho⟩ (by simp)

theorem pairs_addAnnotation (annotations : List AnnotationDecl) :
    S.Pairs (.sum .plain .plain) ( addAnnotation annotations) ( addAnnotation annotations) := by
  refine fun t => .andThen (pairs_annotation? t) ?_
  rintro _ _ (@⟨⟨a, o⟩, ⟨_, o'⟩, ⟨rfl, ho⟩⟩ | _)
  · exact .shows (K := False) (agree_recordIf ho (.give rfl (by simp))) (by simp)
  · exact .give rfl (by simp)

theorem pairs_annotationList : S.Pairs .plain annotationList annotationList := by
  intro t
  refine agree_iterate (L := .plain) ?_ rfl
  rintro annotations _ rfl
  exact pairs_addAnnotation annotations t

theorem pairs_declaredType : S.Pairs .plain declaredType declaredType :=
  fun _ => agree_whenPlain S.core_kept (pairs_sequenceType rfl)

theorem pairs_param (params : List Param) : S.Pairs .plain (param params) (param params) := by
  refine fun t => .then (fresh_expect S.core_kept) fun _ => .seq agree_start fun o o' ho => ?_
  refine .then (agree_capturedQualifiedName 0) fun name => ?_
  refine .settle (t := t) (.then (pairs_plainName ho name t) fun name => ?_)
  exact agree_recordIf ho (.then (pairs_declaredType t) fun _ => .plain _)

theorem pairs_addParam (params : List Param) :
    S.Pairs (.sum .plain .plain) (addParam params) (addParam params) :=
  fun t => .then (pairs_param params t) fun _ => agree_ifEat S.core_kept (.give rfl (by simp)) (.give rfl (by simp))

theorem pairs_paramList : S.Pairs .plain paramList paramList := by
  refine fun t => agree_ifEat S.core_kept (.plain _) (.then (agree_iterate (L := .plain) ?_ rfl) fun params => ?_)
  · rintro params _ rfl
    exact pairs_addParam params t
  · exact .then (agree_expect S.core_kept) fun _ => .plain _

theorem pairs_functionBody (h : S.Pairs S.expr single single') (ho : S.offset.like o o')
    (statements : Bool) : S.PairsOn (S.Drops .scripting ∧ statements) S.expr
      (functionBody single statements o) (functionBody single' statements o') := by
  refine fun t => .ite (fun hs => ?_) fun hs => ?_
  · exact (pairs_blockBody h ho t).shows (by simp [hs])
  · exact (pairs_exprUpToBrace h ho t).shows (by simp [hs])

theorem pairs_inlineFunction (h : S.Pairs S.expr single single') :
    S.Pairs S.expr (inlineFunction single) (inlineFunction single') := by
  refine fun t => .seq (pairs_nextOffset t) fun o o' ho => .then (pairs_annotationList t) fun as => ?_
  refine .then (agree_expect S.core_kept) fun _ => .then (agree_expect S.core_kept) fun _ => .then (pairs_paramList t) fun ps => ?_
  refine .then (pairs_declaredType t) fun type => .then (fresh_expect S.core_kept) fun _ => ?_
  refine .seq agree_start fun place place' hp => ?_
  refine .settle (t := t) (.andThen ((pairs_functionBody h hp false t).shows (by simp)) ?_)
  exact fun body body' hb => agree_node (congrArg (ExprKind.inlineFunction as ps type) hb) ho (by simp)

end XQuerySyntax.Grammar
