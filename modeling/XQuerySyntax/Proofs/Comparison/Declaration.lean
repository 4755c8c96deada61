import XQuerySyntax.Grammar.Declaration
import XQuerySyntax.Proofs.Comparison.FullText
import XQuerySyntax.Proofs.Comparison.Declaring
import XQuerySyntax.Proofs.Comparison.Expr
import XQuerySyntax.Proofs.Comparison.Same

/-! Settings of the prolog in two runs that are always at the same place. Only match options and the
validation of updated trees belong to an extension. -/

namespace XQuerySyntax.Comparison

variable {S : Comparison} {α : Type}

/-- Answers that are the same, and that may show that the extension has been used. -/
def Likeness.same (owes : α → Prop) : S.Likeness α := ⟨Eq, owes, fun _ _ => rfl⟩

@[simp]
theorem owes_same (owes : α → Prop) (a : α) : (Likeness.same owes : S.Likeness α).owes a ↔ owes a := Iff.rfl

/-- Declarations that are the same. -/
def declaration (S : Comparison) : S.Likeness DeclarationKind :=
  .same fun d => S.Drops d.belongsTo ∨ S.expr.list.owes d.exprs

theorem owes_declaration (d : DeclarationKind) :
    S.declaration.owes d ↔ S.Drops d.belongsTo ∨ S.expr.list.owes d.exprs := Iff.rfl

/-- A declaration that both runs have read. -/
theorem agree_declaration {τ : Type} [Parsing τ] {P : τ → τ → Prop} {shown : Prop} (d : DeclarationKind)
    (ho : S.declaration.owes d ↔ shown) :
    S.Agree shown P (pure d) (pure d) S.declaration fun _ => P := .give rfl ho

variable (hs : S.still)
include hs

theorem offset_refl (o : Nat) : S.offset.like o o := by
  obtain ⟨hleft, hright⟩ := S.id_of_still hs
  change S.left o = S.right o
  rw [hleft, hright]

theorem eq_of_like_offset {o o' : Nat} (ho : S.offset.like o o') : o' = o := by
  obtain ⟨hleft, hright⟩ := S.id_of_still hs
  change S.left o = S.right o' at ho
  rw [hleft, hright] at ho
  exact ho.symm

theorem eq_of_like_expr {e e' : Expr} (h : S.expr.like e e') : e' = e := by
  obtain ⟨hleft, hright⟩ := S.id_of_still hs
  change Expr.moved S.left e = Expr.moved S.right e' at h
  rw [hleft, hright, Expr.moved_id, Expr.moved_id] at h
  exact h.symm

theorem eq_of_like_matchOptions {o o' : FtMatchOptions} (h : S.matchOptions.like o o') : o' = o := by
  obtain ⟨hleft, hright⟩ := S.id_of_still hs
  change FtMatchOptions.moved S.left o = FtMatchOptions.moved S.right o' at h
  rw [hleft, hright, FtMatchOptions.moved_id, FtMatchOptions.moved_id] at h
  exact h.symm

end XQuerySyntax.Comparison

namespace XQuerySyntax.Grammar

open XQuerySyntax.Parser Comparison

attribute [local simp] owes_declaration DeclarationKind.belongsTo DeclarationKind.exprs

variable {S : Comparison} {α : Type} {t : Stage}

/-! ### Settings that are the same in both runs -/

theorem agree_eitherWord {first second : Rule × α}
    (h₁ : ¬S.Drops first.1.extension)
    (h₂ : ¬S.Drops second.1.extension) :
    S.Agree False (S.Near t) (eitherWord first second) (eitherWord first second) .plain
      fun _ => S.Near t :=
  agree_ifEat h₁ (.plain _) (.then (agree_expect h₂) fun _ => .plain _)

theorem pairs_addFormatProperty (format : DecimalFormat) :
    S.Pairs (.sum .plain .plain) (addFormatProperty format) (addFormatProperty format) := by
  refine fun t => agree_unlessReads S.core_kept (.give rfl (by simp)) ?_
  refine .seq agree_start fun o o' ho => .then (agree_capturedName 0) fun name => ?_
  refine .then (agree_capturedString 1) fun value => .settle (t := t) ?_
  dsimp only
  split
  · exact agree_fatal (fun hs => eq_of_offset ho hs) _ _
  · refine .ite (fun _ => .then (pairs_record ho _ _ t) fun _ => .give rfl (by simp)) fun _ => ?_
    exact agree_recordIf ho (.give rfl (by simp))

section

variable {o o' : Nat} [S.Exact] (ho : S.offset.like o o')
include ho

theorem pairs_claim (setter : Setter) (code : ErrorCode) :
    S.Pairs .plain (claim setter code o) (claim setter code o') := by
  refine fun t => .then (pairs_amendGet _ t) fun isNew => ?_
  exact .ite (fun _ => pairs_record ho _ _ t) fun _ => .plain _

theorem pairs_claimQualifier (qualifier : String) :
    S.Pairs .plain (claimQualifier qualifier o) (claimQualifier qualifier o') := by
  intro t
  have hlike (s s' : ParserState) (h : S.Near t s s') : s.declaredPrefixes = s'.declaredPrefixes :=
    (h.declaredPrefixes Exact.exact).symm
  have hnext (bound bound' : List String) (hb : bound = bound') : S.Agree False (S.Near t)
      (if bound.contains qualifier then
        record .duplicateNamespacePrefix o
          ("namespace prefix '" ++ qualifier ++ "' is declared more than once")
      else modify fun s => { s with declaredPrefixes := qualifier :: s.declaredPrefixes })
      (if bound'.contains qualifier then
        record .duplicateNamespacePrefix o'
          ("namespace prefix '" ++ qualifier ++ "' is declared more than once")
      else modify fun s => { s with declaredPrefixes := qualifier :: s.declaredPrefixes })
      .plain fun _ => S.Near t := by
    subst hb
    refine .ite (fun _ => pairs_record ho _ _ t) fun _ => agree_modify (fun _ _ h => h) fun s s' h => ?_
    exact { h with declaredPrefixes := fun _ => congrArg (qualifier :: ·) (h.declaredPrefixes Exact.exact) }
  exact Agree.look (L := .plain) hlike hnext

/-- A setting that is claimed and then put into the static context. -/
theorem agree_claimed {shown : Prop} (setter : Setter) (code : ErrorCode)
    (f : StaticContext → StaticContext) (kind : DeclarationKind)
    (hk : S.declaration.owes kind ↔ shown) :
    S.Agree shown (S.Near t)
      (do
        claim setter code o
        amend f
        return kind)
      (do
        claim setter code o'
        amend f
        return kind) S.declaration fun _ => S.Near t :=
  .then (pairs_claim ho setter code t) fun _ => .then (pairs_amend f t) fun _ => agree_declaration kind hk

theorem pairs_copyNamespacesDecl :
    S.Pairs S.declaration (copyNamespacesDecl o) (copyNamespacesDecl o') := by
  refine fun t => .then (agree_eitherWord S.core_kept S.core_kept) fun _ => ?_
  refine .then (agree_expect S.core_kept) fun _ => ?_
  exact .then (agree_eitherWord S.core_kept S.core_kept) fun _ => agree_claimed ho _ _ _ _ (by simp)

theorem pairs_revalidationDecl :
    S.PairsOn (S.Drops .update) S.declaration (revalidationDecl o) (revalidationDecl o') := by
  refine fun t => agree_ifEat S.core_kept ?_ ?_
  · exact .then (.plain _) fun _ => agree_claimed ho _ _ _ _ (by simp)
  · exact .then (agree_eitherWord S.core_kept S.core_kept) fun _ => agree_claimed ho _ _ _ _ (by simp)

theorem agree_defaultNamespaceDecl (kind : DefaultNamespaceKind) :
    S.Agree False (S.Fresh .behind) (defaultNamespaceDecl kind o) (defaultNamespaceDecl kind o')
      S.declaration fun _ => S.Near t := by
  refine .then (agree_capturedString 0) fun uri => .settle (t := t) (.then (pairs_claim ho _ _ t) fun _ => ?_)
  refine .then (pairs_checkDefaultNamespace ho uri t) fun _ => ?_
  cases kind <;> exact .then (pairs_amend _ t) fun _ => agree_declaration _ (by simp)

theorem pairs_namespaceDecl : S.Pairs S.declaration (namespaceDecl o) (namespaceDecl o') := by
  refine fun t => .then (fresh_expect S.core_kept) fun _ => .then (agree_capturedName 0) fun qualifier => ?_
  refine .then (agree_capturedString 1) fun uri => .settle (t := t) ?_
  refine .then (pairs_checkBinding ho qualifier uri t) fun _ => ?_
  refine .then (pairs_claimQualifier ho qualifier t) fun _ => .then (pairs_amend _ t) fun _ => ?_
  exact agree_declaration _ (by simp)

theorem agree_optionDecl :
    S.Agree False (S.Fresh .behind) (optionDecl o) (optionDecl o') S.declaration fun _ => S.Near t := by
  refine .then (agree_capturedQualifiedName 0) fun lexical => .then (agree_capturedString 1) fun value => ?_
  refine .settle (t := t) (.then (pairs_plainName ho lexical t) fun _ => .then (pairs_amend _ t) fun _ => ?_)
  exact agree_declaration _ (by simp)

theorem pairs_decimalFormatDecl (name : Option QName) :
    S.Pairs S.declaration (decimalFormatDecl name o) (decimalFormatDecl name o') := by
  refine fun t => .then (agree_iterate (L := .plain) ?_ rfl) fun format => ?_
  · rintro format _ rfl
    exact pairs_addFormatProperty format t
  · refine .then (pairs_amendGet _ t) fun isNew => ?_
    exact agree_recordIf ho (agree_declaration _ (by simp))

end

/-- Match options for all searches are read only behind a word of the extension. -/
theorem pairs_ftOptionDecl [S.Exact] (hs : S.still) :
    S.PairsOn (S.Drops .fullText) S.declaration ftOptionDecl ftOptionDecl := by
  refine fun t => .bindIf (fun hf => pairs_matchOptions hf t) fun options options' ho => ?_
  obtain rfl := eq_of_like_matchOptions hs ho
  have hrest : S.Agree (S.Drops .fullText ∨ S.matchOptions.owes options') (S.Near t)
      (do
        amend fun c => { c with ftOptions := some options' }
        return DeclarationKind.ftOption options')
      (do
        amend fun c => { c with ftOptions := some options' }
        return DeclarationKind.ftOption options') S.declaration fun _ => S.Near t :=
    .then (pairs_amend _ t) fun _ => agree_declaration _ (by simp)
  exact .ite (fun _ => agree_unexpectedThen _) fun _ => hrest

end XQuerySyntax.Grammar

/-! ### Declarations

Declarations in two runs that are always at the same place. They are the same, and show in their
kind or in their expressions that the dropped extension has been used. -/

namespace XQuerySyntax.Comparison

variable {S : Comparison}

/-- Variables that are the same. -/
def variableDecl (S : Comparison) : S.Likeness VariableDecl := .same fun d => S.expr.option.owes d.value

/-- Functions that are the same. -/
def functionDecl (S : Comparison) : S.Likeness FunctionDecl :=
  .same fun d => S.Drops d.kind.belongsTo ∨ S.expr.option.owes d.body

/-- Declarations without their semicolons that are the same. -/
def declarationHead (S : Comparison) : S.Likeness Grammar.DeclarationHead :=
  .same fun head => S.declaration.owes head.decl.kind

@[simp]
theorem owes_variableDecl (d : VariableDecl) : S.variableDecl.owes d ↔ S.expr.option.owes d.value := Iff.rfl

@[simp]
theorem owes_functionDecl (d : FunctionDecl) :
    S.functionDecl.owes d ↔ S.Drops d.kind.belongsTo ∨ S.expr.option.owes d.body := Iff.rfl

@[simp]
theorem owes_declarationHead (head : Grammar.DeclarationHead) :
    S.declarationHead.owes head ↔ S.declaration.owes head.decl.kind := Iff.rfl

end XQuerySyntax.Comparison

namespace XQuerySyntax.Grammar

open XQuerySyntax.Parser Comparison

attribute [local simp] owes_declaration DeclarationKind.belongsTo DeclarationKind.exprs

variable {S : Comparison} {t : Stage} {o : Nat}

/-- If nothing has been read, a word about a function can still stand at the place. -/
def Answered {α : Type} (S : Comparison) (found : Option α) (s s' : ParserState) : Prop :=
  S.Near .behind s s' ∧ (found = none → S.Declaring s.scan)

theorem agree_answered {α : Type} {L : S.Likeness α} {P : ParserState → ParserState → Prop} {p : Parser α}
    (h : S.Agree False P p p L fun _ => S.Near .behind) :
    S.Agree False P (do return some (← p)) (do return some (← p)) L.option (Answered S) :=
  .andThen h fun _ _ hl => .pure (.some hl) (by simp) fun _ _ h => ⟨h, nofun⟩

variable [S.Exact] (hs : S.still)
include hs

/-! ### Settings -/

theorem agree_setterDecl (o : Nat) :
    S.Agree False S.Here (setterDecl o) (setterDecl o) S.declaration.option (Answered S) := by
  have ho := offset_refl hs o
  refine agree_ifHere S.core_kept (agree_answered (.settle (t := .behind) ?_))
    (agree_ifHere S.core_kept (agree_answered ?_) (agree_ifHere S.core_kept (agree_answered ?_)
    (agree_ifHere S.core_kept (agree_answered (.settle (t := .behind) ?_))
    (agree_ifHere S.core_kept (agree_answered (.settle (t := .behind) ?_))
    (agree_ifHere S.core_kept (agree_answered (.settle (t := .behind) ?_))
    (agree_ifHere S.core_kept (agree_answered (.settle (t := .behind) (pairs_copyNamespacesDecl ho .behind)))
    (agree_ifHere S.core_kept (agree_answered (.settle (t := .behind) (pairs_decimalFormatDecl ho none .behind)))
    (agree_ifHere S.core_kept ?_ (agree_ifHere S.core_kept (agree_answered (agree_defaultNamespaceDecl ho _))
    (agree_ifHere S.core_kept (agree_answered (agree_defaultNamespaceDecl ho _))
    (agree_ifHere S.core_kept (agree_answered (.settle (t := .behind) (pairs_namespaceDecl ho .behind)))
      (.pure .none (by simp) fun _ _ h => ⟨h.1, fun _ => h.2⟩))))))))))))
  · exact .then (agree_eitherWord S.core_kept S.core_kept) fun _ => agree_claimed ho _ _ _ _ (by simp)
  · exact .then (agree_capturedString 0) fun _ => .settle (agree_claimed ho _ _ _ _ (by simp))
  · exact .then (agree_capturedString 0) fun _ => .settle (agree_claimed ho _ _ _ _ (by simp))
  · exact .then (agree_eitherWord S.core_kept S.core_kept) fun _ => agree_claimed ho _ _ _ _ (by simp)
  · exact .then (agree_eitherWord S.core_kept S.core_kept) fun _ => agree_claimed ho _ _ _ _ (by simp)
  · exact .then (agree_eitherWord S.core_kept S.core_kept) fun _ => agree_claimed ho _ _ _ _ (by simp)
  · refine .then (agree_capturedQualifiedName 0) fun lexical => .settle (t := .behind) ?_
    refine .then (pairs_plainName ho lexical .behind) fun name => ?_
    exact agree_answered (pairs_decimalFormatDecl ho _ .behind)

/-! ### Variables and the context item -/

theorem pairs_checkLibraryNamespace (name : QName) (what : String) (o : Nat) :
    S.Pairs .plain (checkLibraryNamespace name what o) (checkLibraryNamespace name what o) := by
  intro t
  have ho := offset_refl hs o
  have hlike (s s' : ParserState) (h : S.Near t s s') : s.libraryNamespace = s'.libraryNamespace :=
    (h.libraryNamespace Exact.exact).symm
  let check (uri? : Option String) : Parser Unit := uri?.elim (pure ⟨⟩) fun uri =>
    if name.namespaceUri ≠ some uri then
      record .componentOutsideModuleNamespace o
        (what ++ " '" ++ name.text ++ "' is not in the library module namespace '" ++ uri ++ "'")
    else pure ⟨⟩
  have hcheck (uri? uri?' : Option String) (hu : uri? = uri?') :
      S.Agree False (S.Near t) (check uri?) (check uri?') .plain fun _ => S.Near t := by
    subst hu
    cases uri? with
    | none => exact .plain _
    | some uri => exact .ite (fun _ => pairs_record ho _ _ t) fun _ => .plain _
  have hlook : checkLibraryNamespace name what o = get >>= fun s => check s.libraryNamespace := by
    unfold checkLibraryNamespace
    refine congrArg (get >>= ·) (funext fun s => ?_)
    cases s.libraryNamespace <;> rfl
  rw [hlook]
  exact Agree.look (L := .plain) hlike hcheck

omit [S.Exact] in
theorem pairs_initialValue :
    S.Pairs (.same fun v => S.expr.option.owes v.1) initialValue initialValue := by
  refine fun t => agree_ifEat S.core_kept ?_ (agree_ifEat S.core_kept ?_ (agree_unexpected _))
  · refine .bind (pairs_exprSingle t) fun e e' he => ?_
    obtain rfl := eq_of_like_expr hs he
    exact .give rfl (by simp)
  · refine .bind (agree_whenEats S.core_kept pairs_exprSingle) ?_
    rintro _ _ (@⟨e, e', he⟩ | _)
    · obtain rfl := eq_of_like_expr hs he
      exact .give rfl (by simp)
    · exact .give rfl (by simp)

theorem pairs_variableDecl (annotations : List AnnotationDecl) (o : Nat) :
    S.Pairs S.variableDecl (variableDecl annotations o) (variableDecl annotations o) := by
  have ho := offset_refl hs o
  refine fun t => .then (fresh_expect S.core_kept) fun _ => .seq agree_start fun place place' hp => ?_
  obtain rfl := eq_of_like_offset hs hp
  refine .then (agree_capturedQualifiedName 0) fun lexical => .settle (t := t) ?_
  refine .then (pairs_plainName hp lexical t) fun name => ?_
  refine .then (pairs_checkLibraryNamespace hs _ _ _ t) fun _ => .then (pairs_declaredType t) fun type => ?_
  refine .bind (pairs_initialValue hs t) ?_
  rintro ⟨value, isExternal⟩ _ rfl
  refine .then (pairs_amendGet _ t) fun isNew => .ite (fun _ => ?_) fun _ => .give rfl (by simp)
  exact .then (pairs_record ho _ _ t) fun _ => .give rfl (by simp)

theorem pairs_contextItemDecl (o : Nat) :
    S.Pairs S.declaration (contextItemDecl o) (contextItemDecl o) := by
  have ho := offset_refl hs o
  refine fun t => .then (pairs_declaredType t) fun type => .andThen (pairs_initialValue hs t) ?_
  rintro ⟨value, isExternal⟩ _ rfl
  refine .then (pairs_claim ho _ _ t) fun _ => .then (pairs_amend _ t) fun _ => .give rfl ?_
  simp

/-! ### Functions -/

omit [S.Exact] in
theorem pairs_declaredBody (kind : FunctionKind) :
    S.PairsOn (S.Drops kind.belongsTo) (.marked (.same S.expr.option.owes) fun _ => S.Drops kind.belongsTo)
      (declaredBody kind) (declaredBody kind) := by
  refine fun t => agree_ifEat S.core_kept (.give rfl (by simp)) (.then (fresh_expect S.core_kept) fun _ => .seq agree_start ?_)
  intro place place' hp
  refine .settle (t := t) (.bindIf (L := S.expr) (Q := fun _ => S.Near t) (fun hk => ?_) ?_)
  · refine (pairs_functionBody pairs_exprSingle hp _ t).unshown ?_
    rintro ⟨hscripting, hkind⟩
    obtain rfl : kind = .sequential := eq_of_beq hkind
    exact hk hscripting
  · intro body body' hb
    obtain rfl := eq_of_like_expr hs hb
    exact .give rfl (by simp)

theorem agree_functionDecl (annotations : List AnnotationDecl) (kind : FunctionKind) (o : Nat) :
    S.Agree (S.Drops kind.belongsTo) (S.Fresh .behind) (functionDecl annotations kind o)
      (functionDecl annotations kind o) S.functionDecl fun _ => S.Near t := by
  have ho := offset_refl hs o
  refine .seq agree_start fun place place' hp => ?_
  obtain rfl := eq_of_like_offset hs hp
  refine .then (agree_capturedQualifiedName 0) fun lexical => .settle (t := t) ?_
  refine .then (pairs_functionName hp lexical t) fun name => ?_
  extract_lets rest
  have hrest (u : Unit) : S.Agree (S.Drops kind.belongsTo) (S.Near t) (rest u) (rest u) S.functionDecl
      fun _ => S.Near t := by
    refine .then (pairs_checkLibraryNamespace hs _ _ _ t) fun _ => .then (agree_expect S.core_kept) fun _ => ?_
    refine .then (pairs_paramList t) fun params => .then (pairs_declaredType t) fun type => ?_
    refine .andThen (pairs_declaredBody hs kind t) ?_
    rintro body _ rfl
    refine .then (pairs_amendGet _ t) fun isNew => .ite (fun _ => ?_) fun _ => .give rfl (by simp)
    exact .then (pairs_record ho _ _ t) fun _ => .give rfl (by simp)
  split
  · exact .ite (fun _ => .then (pairs_record hp _ _ t) hrest) fun _ => hrest ()
  · exact hrest ()

/-! ### Imports -/

omit [S.Exact] hs in
theorem pairs_locationHints : S.Pairs .plain locationHints locationHints := by
  refine fun t => agree_ifReads S.core_kept ?_ (.plain _)
  refine .then (agree_capturedString 0) fun first => .settle (t := t) ?_
  exact .then (agree_manyPlain (agree_whenCaptures S.core_kept fun c => c.string 0)) fun _ => .plain _

theorem pairs_bindImport (qualifier : Option String) (uri : String) (o : Nat) :
    S.Pairs .plain (bindImport qualifier uri o) (bindImport qualifier uri o) := by
  have ho := offset_refl hs o
  intro t
  cases qualifier with
  | none => exact .plain _
  | some q =>
    refine .then (pairs_checkBinding ho q uri t) fun _ => ?_
    exact .then (pairs_claimQualifier ho q t) fun _ => pairs_amend _ t

theorem pairs_schemaImport (o : Nat) : S.Pairs S.declaration (schemaImport o) (schemaImport o) := by
  have ho := offset_refl hs o
  refine fun t => .then (agree_whenCaptures S.core_kept fun c => c.name 0) fun qualifier => ?_
  extract_lets rest
  have hrest (isDefault : Bool) : S.Agree False (S.Near t) (rest isDefault) (rest isDefault) S.declaration
      fun _ => S.Near t := by
    refine .then (fresh_expect S.core_kept) fun _ => .then (agree_capturedString 0) fun uri => .settle (t := t) ?_
    refine .then (pairs_locationHints t) fun locations => ?_
    refine .then (pairs_bindImport hs qualifier uri o t) fun _ => ?_
    extract_lets answer finish
    have hfinish (u : Unit) : S.Agree False (S.Near t) (finish u) (finish u) S.declaration
        fun _ => S.Near t :=
      .then (pairs_amendGet _ t) fun isNew => agree_recordIf ho (agree_declaration _ (by simp))
    refine .ite (fun _ => ?_) fun _ => hfinish ()
    exact .then (pairs_claim ho _ _ t) fun _ => .then (pairs_amend _ t) hfinish
  exact .ite (fun _ => .then (agree_eat S.core_kept) hrest) fun _ => .then (.plain false) hrest

theorem pairs_moduleImport (o : Nat) : S.Pairs .plain (moduleImport o) (moduleImport o) := by
  have ho := offset_refl hs o
  refine fun t => .then (agree_whenCaptures S.core_kept fun c => c.name 0) fun qualifier => ?_
  refine .then (fresh_expect S.core_kept) fun _ => .then (agree_capturedString 0) fun uri => .settle (t := t) ?_
  refine .then (pairs_locationHints t) fun locations => agree_recordIf ho ?_
  refine .then (pairs_bindImport hs qualifier uri o t) fun _ => .then (pairs_amendGet _ t) fun isNew => ?_
  exact agree_recordIf ho (.plain _)

/-! ### Variables and functions behind their annotations -/

/-- A function behind its annotations and the word that says what it may do; no word in front of
something else. -/
def functionBehind (annotations : List AnnotationDecl) (kind : FunctionKind) (offset : Nat) :
    Parser (Option DeclarationKind) := do
  if ← eat Terminal.declareFunction then
    return some (.functionDecl (← functionDecl annotations kind offset))
  if !annotations.isEmpty || kind != .simple then
    unexpected "'variable' or 'function'"
  return none

/-- A variable or a function behind annotations and a word that says what a function may do. -/
def componentBehind (annotations : List AnnotationDecl) (kind : FunctionKind) (offset : Nat) :
    Parser (Option DeclarationKind) := do
  if ← eat Terminal.declareVariable then
    return some (.variableDecl (← variableDecl annotations offset))
  functionBehind annotations kind offset

omit hs in
theorem componentDecl_eq (o : Nat) : componentDecl o = annotationList >>= fun annotations =>
    functionKind >>= fun kind => componentBehind annotations kind o := rfl

theorem pairs_functionBehind (annotations : List AnnotationDecl) (kind : FunctionKind) (o : Nat) :
    S.PairsOn (S.Drops kind.belongsTo) S.declaration.option (functionBehind annotations kind o)
      (functionBehind annotations kind o) := by
  refine fun t => agree_ifReads S.core_kept (.andThen (agree_functionDecl (t := t) hs annotations kind o) ?_)
    (.ite (fun _ => ?_) fun hkind => ?_)
  · rintro d _ rfl
    refine .give (.some rfl) ?_
    simp
  · exact agree_unexpectedThen _
  · obtain ⟨-, rfl⟩ : annotations = [] ∧ kind = .simple := by simpa using hkind
    exact .give .none (by simp [FunctionKind.belongsTo])

theorem pairs_componentBehind (annotations : List AnnotationDecl) {kind : FunctionKind}
    (hk : ¬S.Drops kind.belongsTo) (o : Nat) :
    S.Pairs S.declaration.option (componentBehind annotations kind o)
      (componentBehind annotations kind o) := by
  refine fun t => agree_ifEat S.core_kept (.andThen (pairs_variableDecl hs annotations o t) ?_)
    ((pairs_functionBehind hs annotations kind o t).unshown hk)
  rintro d _ rfl
  refine .give (.some rfl) ?_
  simp

omit [S.Exact] hs in
theorem not_owes_of_core (hc : S.dropped = .core) (found : Option DeclarationKind) :
    ¬S.declaration.option.owes found := by
  rintro ⟨d, -, ⟨hd, hcore⟩ | ⟨e, -, hcore, -⟩⟩
  · exact hcore (hd.symm.trans hc)
  · exact hcore hc

omit hs in
/-- What has been dropped from the tree stays dropped: a run beside itself shows it. -/
theorem spoiled_componentBehind {annotations : List AnnotationDecl} {kind : FunctionKind}
    {s s₁ : ParserState} {found : Option DeclarationKind} (h : s.Spoiled)
    (hr : componentBehind annotations kind o s = .ok found s₁) : s₁.Spoiled := by
  let S : Comparison := same .core False False.elim 0
  have hagree := pairs_componentBehind (S := S) trivial annotations
    (fun hd => hd.2 hd.1.symm : ¬S.Drops kind.belongsTo) o .behind
  obtain ⟨-, hlost⟩ := hagree.lost s found s₁ ⟨⟨rfl, not_false⟩, .inr h⟩ hr
  exact hlost.resolve_left (not_owes_of_core rfl found)

theorem agree_componentDecl (o : Nat) : S.Agree False S.Here (componentDecl o) (componentDecl o)
    S.declaration.option fun _ => S.Near .behind := by
  rw [componentDecl_eq]
  refine .then here_annotationList fun annotations => agree_functionKind ?_ ?_ ?_
  · exact fun kind hk => pairs_componentBehind hs annotations hk o .behind
  · exact fun kind s found s₁ => spoiled_componentBehind
  · intro kind hk hon s found s₁ hvariable hr
    change (eat Terminal.declareVariable >>= fun matched => if matched then _ else _ : Parser _) s = _ at hr
    rw [ifEat_eq] at hr
    split at hr
    · exact (hvariable _ ‹_›).elim
    · exact (pairs_functionBehind hs annotations kind o .behind).lost _ found s₁ ⟨hon, .inl hk⟩ hr
    · cases hr

/-! ### Declarations -/

omit [S.Exact] hs in
/-- A declaration with the part of the prolog in which it stands. -/
theorem agree_inSection {shown : Prop} {P : ParserState → ParserState → Prop} {p : Parser DeclarationKind}
    (h : S.Agree shown P p p S.declaration fun _ => S.Near .behind) (part : Section) :
    S.Agree shown P (do return some (← p, part)) (do return some (← p, part))
      (.option (.prod S.declaration .plain)) fun _ => S.Near .behind :=
  .andThen h fun _ _ hd => .give (.some ⟨hd, rfl⟩) (by simp)

theorem agree_declared (o : Nat) : S.Agree False S.Here (declared o) (declared o)
    (.option (.prod S.declaration .plain)) fun _ => S.Near .behind := by
  have ho := offset_refl hs o
  refine .andThen (agree_setterDecl hs o) ?_
  rintro _ _ (@⟨d, _, hd⟩ | _)
  · exact .pure (.some ⟨hd, rfl⟩) (by simp) fun _ _ h => h.1
  suffices h : S.Agree False S.Here _ _ _ _ from
    (h.pre fun s s' (h : Answered S none s s') => ⟨h.1, h.2 rfl⟩).shows (by simp)
  refine agree_ifHere S.core_kept (agree_inSection (agree_optionDecl ho) _) (uses_ifHere (x := .fullText) rfl ?_
    (uses_ifHere (x := .update) rfl ?_ (agree_ifHere S.core_kept ?_ ?_)))
  · exact agree_inSection (.settle (t := .behind) ((pairs_ftOptionDecl hs .behind).shows (by simp))) _
  · exact agree_inSection (.settle (t := .behind) ((pairs_revalidationDecl ho .behind).shows (by simp))) _
  · exact agree_inSection (.settle (t := .behind) (pairs_contextItemDecl hs o .behind)) _
  · refine .andThen (agree_componentDecl hs o) ?_
    rintro _ _ (@⟨d, _, hd⟩ | _)
    · exact .give (.some ⟨hd, rfl⟩) (by simp)
    · exact .give .none (by simp)

/-- A declaration behind the word that opens it. Without one the parser goes back. -/
def declaredHead (place : Matcher.Mark) : Parser (Option DeclarationHead) := do
  let offset ← start
  match ← declared offset with
  | some (kind, part) => return some ⟨⟨kind, offset⟩, part, none⟩
  | none =>
    restore place
    return none

theorem agree_declaredHead (place : Matcher.Mark) :
    S.Agree False (fun s s' => S.Opened s s' ∧ S.Resumes place) (declaredHead place) (declaredHead place)
      S.declarationHead.option fun _ => S.Near .behind := by
  refine .seq (agree_start.placed (silent_observe _)).frame fun o o' ho => ?_
  obtain rfl := eq_of_like_offset hs ho
  refine .andThen ((agree_declared hs o').pre fun _ _ h => ⟨h.1.1, h.2⟩).frame ?_
  rintro _ _ (@⟨⟨kind, part⟩, ⟨_, _⟩, ⟨rfl, rfl⟩⟩ | _)
  · exact .pure (.some rfl) (by simp) fun _ _ h => h.1
  · exact (Agree.then (agree_restore place) fun _ => .absent).shows (by simp)

omit [S.Exact] in
/-- An import, whose place is where its first word begins. -/
theorem agree_importHead {α : Type} {owes : α → Prop} {p : Nat → Parser α}
    (hp : ∀ o, S.Pairs (.same owes) (p o) (p o)) {head : Nat → α → DeclarationHead}
    (hhead : ∀ o a, S.declaration.owes (head o a).decl.kind ↔ owes a) :
    S.Agree False (S.Fresh .behind)
      (do
        let offset ← start
        return some (head offset (← p offset)))
      (do
        let offset ← start
        return some (head offset (← p offset)))
      S.declarationHead.option fun _ => S.Near .behind := by
  refine .seq agree_start fun o o' ho => ?_
  obtain rfl := eq_of_like_offset hs ho
  refine .settle (.andThen (hp o' .behind) ?_)
  rintro a _ rfl
  exact .give (.some rfl) ((owes_some _ _).trans (hhead o' a))

theorem agree_declarationHead : S.Agree False (S.Near .behind) declarationHead declarationHead
    S.declarationHead.option fun _ => S.Near .behind := by
  refine .then agree_mark fun place => ?_
  simp only [bind_eatFirst_cons, bind_eatFirst_nil]
  have hword (r : Rule) (hr : r ∈ Terminal.beforeFunctionKind) {no : Parser (Option DeclarationHead)}
      (hn : S.Agree False (fun s s' => S.Near .behind s s' ∧ S.Resumes place) no no
        S.declarationHead.option fun _ => S.Near .behind) :
      S.Agree False (fun s s' => S.Near .behind s s' ∧ S.Resumes place)
        (eat r >>= fun matched => if matched then declaredHead place else no)
        (eat r >>= fun matched => if matched then declaredHead place else no)
        S.declarationHead.option fun _ => S.Near .behind := by
    refine .then (opened_eat hr).frame ?_
    rintro (_ | _)
    · exact hn.pre fun _ _ h => ⟨h.1.1, h.2⟩
    · exact (agree_declaredHead hs place).pre fun _ _ h => ⟨⟨h.1.1, h.1.2 rfl⟩, h.2⟩
  refine .then (fresh_eat (r := Terminal.importSchema) S.core_kept).frame ?_
  rintro (_ | _)
  rotate_left
  · exact (agree_importHead hs (pairs_schemaImport hs) fun _ _ => Iff.rfl).pre fun _ _ h => h.1
  refine .then (fresh_eat (r := Terminal.importModule) S.core_kept).frame ?_
  rintro (_ | _)
  rotate_left
  · have hmodule (o : Nat) : S.Pairs (.same fun _ => False) (moduleImport o) (moduleImport o) :=
      pairs_moduleImport hs o
    refine (agree_importHead hs hmodule ?_).pre fun _ _ h => h.1
    simp
  refine hword _ (by simp [Terminal.beforeFunctionKind]) (hword _ (by simp [Terminal.beforeFunctionKind]) ?_)
  exact .pure .none (by simp) fun _ _ h => h.1

end XQuerySyntax.Grammar
