import XQuerySyntax.Proofs.LexicalState.Expr

/-! The lexical states of prologs and modules, and of whole parses. A declaration may end in several states, but with the
saved states with which it began; the semicolon behind it makes the next declaration or the body of
the module come next. -/

namespace XQuerySyntax.Grammar

open XQuerySyntax.Parser

variable {S : List LexicalState} {k : StateStack}

/-! ### Setters -/

theorem keeps_claim (setter : Setter) (code : ErrorCode) (offset : Nat) :
    Keeps (claim setter code offset) :=
  (keeps_amendGet _).seq fun _ => keeps_ite (keeps_record _ _ _) (keeps_pure ())

theorem keeps_claimQualifier (qualifier : String) (offset : Nat) :
    Keeps (claimQualifier qualifier offset) :=
  keeps_get.seq fun _ => keeps_ite (keeps_record _ _ _) (keeps_modify fun _ => rfl)

theorem keeps_eitherWord {α : Type} {first second : Rule × α} (h₁ : first.1.next = .stay)
    (h₂ : second.1.next = .stay) : Keeps (eitherWord first second) :=
  keeps_ifEat h₁ (keeps_pure _) ((keeps_expect h₂).seq fun _ => keeps_pure _)

/-- A setting that is claimed and then put into the static context. -/
theorem keeps_claimed (setter : Setter) (code : ErrorCode) (offset : Nat)
    (f : StaticContext → StaticContext) (kind : DeclarationKind) : Keeps (do
      claim setter code offset
      amend f
      return kind) :=
  (keeps_claim setter code offset).seq fun _ => (keeps_amend f).seq fun _ => keeps_pure kind

theorem keeps_copyNamespacesDecl (offset : Nat) : Keeps (copyNamespacesDecl offset) := by
  refine (keeps_eitherWord rfl rfl).seq fun preserve => (keeps_expect rfl).seq fun _ => ?_
  exact (keeps_eitherWord rfl rfl).seq fun inherit => keeps_claimed _ _ _ _ _

theorem keeps_revalidationDecl (offset : Nat) : Keeps (revalidationDecl offset) := by
  refine (keeps_eat rfl).seq fun _ => keeps_ite ?_ ?_
  · exact (keeps_pure _).seq fun mode => keeps_claimed _ _ _ _ _
  · exact (keeps_eitherWord rfl rfl).seq fun mode => keeps_claimed _ _ _ _ _

theorem keeps_addFormatProperty (format : DecimalFormat) : Keeps (addFormatProperty format) := by
  refine (keeps_eat rfl).seq fun _ => keeps_ite (keeps_pure _) ?_
  refine keeps_start.seq fun offset => (keeps_capturedName 0).seq fun name => ?_
  refine (keeps_capturedString 1).seq fun value => ?_
  dsimp only
  split
  · exact keeps_fatal _ _ _
  · refine keeps_ite ((keeps_record _ _ _).seq fun _ => keeps_pure _) ?_
    exact keeps_ite ((keeps_record _ _ _).seq fun _ => keeps_pure _) (keeps_pure _)

theorem keeps_decimalFormatDecl (name : Option QName) (offset : Nat) :
    Keeps (decimalFormatDecl name offset) := by
  refine (keeps_iterate keeps_addFormatProperty []).seq fun format => ?_
  refine (keeps_amendGet _).seq fun _ => keeps_ite ?_ (keeps_pure _)
  exact (keeps_record _ _ _).seq fun _ => keeps_pure _

theorem keeps_defaultNamespaceDecl (kind : DefaultNamespaceKind) (offset : Nat) :
    Keeps (defaultNamespaceDecl kind offset) := by
  refine (keeps_capturedString 0).seq fun uri => (keeps_claim _ _ _).seq fun _ => ?_
  refine (keeps_checkDefaultNamespace uri offset).seq fun _ => ?_
  cases kind <;> exact (keeps_amend _).seq fun _ => keeps_pure _

theorem keeps_namespaceDecl (offset : Nat) : Keeps (namespaceDecl offset) := by
  refine (keeps_expect rfl).seq fun _ => (keeps_capturedName 0).seq fun qualifier => ?_
  refine (keeps_capturedString 1).seq fun uri => (keeps_checkBinding _ _ _).seq fun _ => ?_
  exact (keeps_claimQualifier _ _).seq fun _ => (keeps_amend _).seq fun _ => keeps_pure _

theorem keeps_optionDecl (offset : Nat) : Keeps (optionDecl offset) := by
  refine (keeps_capturedQualifiedName 0).seq fun name => (keeps_capturedString 1).seq fun value => ?_
  exact (keeps_plainName name offset).seq fun _ => (keeps_amend _).seq fun _ => keeps_pure _

theorem suffix_ftOptionDecl : Suffix ftOptionDecl := by
  refine fun S => leads_bind (suffix_matchOptions S) fun options => course_ite (fun _ => ?_) fun _ => ?_
  · exact course_bind_stop (course_unexpected _)
  · exact (keeps_amend _).bind fun _ => leads_pure rfl

theorem level_setterDecl (offset : Nat) : Level (setterDecl offset) := by
  have hend {p : Parser DeclarationKind} (h : Keeps p) : Level (do return some (← p)) :=
    h.level.bind fun _ => level_pure _
  refine level_ifEat flat_stay (hend ?_) (level_ifEat flat_stay (hend ?_)
    (level_ifEat flat_stay (hend ?_) (level_ifEat flat_stay (hend ?_)
    (level_ifEat flat_stay (hend ?_) (level_ifEat flat_stay (hend ?_)
    (level_ifEat flat_stay (hend (keeps_copyNamespacesDecl offset))
    (level_ifEat flat_stay (hend (keeps_decimalFormatDecl none offset))
    (level_ifEat flat_stay ?_ (level_ifEat flat_stay (hend (keeps_defaultNamespaceDecl _ offset))
    (level_ifEat flat_stay (hend (keeps_defaultNamespaceDecl _ offset))
    (level_ifEat (flat_goto _) (hend (keeps_namespaceDecl offset)) (level_pure none))))))))))))
  · exact (keeps_eitherWord rfl rfl).seq fun _ => keeps_claimed _ _ _ _ _
  · exact (keeps_capturedString 0).seq fun _ => keeps_claimed _ _ _ _ _
  · exact (keeps_capturedString 0).seq fun _ => keeps_claimed _ _ _ _ _
  · exact (keeps_eitherWord rfl rfl).seq fun _ => keeps_claimed _ _ _ _ _
  · exact (keeps_eitherWord rfl rfl).seq fun _ => keeps_claimed _ _ _ _ _
  · exact (keeps_eitherWord rfl rfl).seq fun _ => keeps_claimed _ _ _ _ _
  · refine (keeps_capturedQualifiedName 0).level.bind fun name => ?_
    exact (keeps_plainName name offset).level.bind fun _ => hend (keeps_decimalFormatDecl _ offset)

/-! ### Declarations -/

theorem keeps_checkLibraryNamespace (name : QName) (what : String) (offset : Nat) :
    Keeps (checkLibraryNamespace name what offset) := by
  refine keeps_get.seq fun s => ?_
  split
  · exact keeps_pure ()
  · exact keeps_ite (keeps_record _ _ _) (keeps_pure ())

theorem level_declaredType : Level declaredType := by
  refine level_whenEats (flat_goto _) fun k => course_weaken (leads_sequenceType _) ?_
  rintro _ _ rfl
  rfl

/-- A value stands behind the sign that makes an operand come next. -/
theorem level_initialValue : Level initialValue := by
  intro k
  have hvalue : Course (k.goto .expression) exprSingle fun _ k' => k'.saved = k.saved := by
    refine course_weaken (operand_exprSingle k.saved) ?_
    rintro _ _ rfl
    rfl
  refine course_ifEat rfl ?_ (course_ifEat rfl ?_ (course_unexpected _))
  · exact course_bind hvalue fun _ _ hk => course_pure hk
  · have hdefault : Course k (whenEats Terminal.variableAssign exprSingle) fun _ k' =>
        k'.saved = k.saved :=
      course_ifEat rfl (course_bind hvalue fun _ _ hk => course_pure hk) (course_pure rfl)
    exact course_bind hdefault fun _ _ hk => course_pure hk

theorem level_variableDecl (annotations : List AnnotationDecl) (offset : Nat) :
    Level (variableDecl annotations offset) := by
  refine (keeps_expect rfl).level.bind fun _ => keeps_start.level.bind fun place => ?_
  refine (keeps_capturedQualifiedName 0).level.bind fun name => ?_
  refine (keeps_plainName name place).level.bind fun _ => ?_
  refine (keeps_checkLibraryNamespace _ _ _).level.bind fun _ => ?_
  refine level_declaredType.bind fun type => level_initialValue.bind fun ⟨value, isExternal⟩ => ?_
  refine (keeps_amendGet _).level.bind fun _ => level_ite ?_ (level_pure _)
  exact (keeps_record _ _ _).level.bind fun _ => level_pure _

theorem level_contextItemDecl (offset : Nat) : Level (contextItemDecl offset) := by
  refine level_declaredType.bind fun type => level_initialValue.bind fun ⟨value, isExternal⟩ => ?_
  exact (keeps_claimed _ _ _ _ _).level

theorem level_declaredBody (kind : FunctionKind) : Level (declaredBody kind) := by
  refine fun k => course_ifEat rfl (course_pure rfl) ?_
  refine course_bind (leads_expect rfl) ?_
  rintro _ _ rfl
  refine keeps_start.course_bind fun place => ?_
  refine course_bind (operand_functionBody operand_exprSingle _ place k.saved) ?_
  rintro body _ rfl
  exact course_pure rfl

theorem level_functionDecl (annotations : List AnnotationDecl) (kind : FunctionKind)
    (offset : Nat) : Level (functionDecl annotations kind offset) := by
  refine keeps_start.level.bind fun place => (keeps_capturedQualifiedName 0).level.bind fun name => ?_
  refine (keeps_functionName name place).level.bind fun name => ?_
  extract_lets rest
  have hrest (u : Unit) : Level (rest u) := by
    refine (keeps_checkLibraryNamespace _ _ _).level.bind fun _ k => ?_
    refine course_bind (leads_expect rfl) ?_
    rintro _ _ rfl
    refine course_bind leads_paramList ?_
    rintro params _ rfl
    refine course_bind leads_declaredType ?_
    rintro type _ rfl
    refine course_bind (level_declaredBody kind _) fun body k₁ hk₁ => ?_
    refine (keeps_amendGet _).course_bind fun _ => course_ite (fun _ => ?_) fun _ => course_pure hk₁
    exact (keeps_record _ _ _).course_bind fun _ => course_pure hk₁
  split
  · exact level_ite ((keeps_record _ _ _).level.bind hrest) (hrest ())
  · exact hrest ()

theorem keeps_locationHints : Keeps locationHints := by
  refine keeps_ifEat rfl ((keeps_capturedString 0).seq fun first => ?_) (keeps_pure _)
  exact (keeps_many (keeps_whenEats rfl (keeps_capturedString 0))).seq fun _ => keeps_pure _

theorem keeps_bindImport (qualifier : Option String) (uri : String) (offset : Nat) :
    Keeps (bindImport qualifier uri offset) := by
  cases qualifier with
  | none => exact keeps_pure ()
  | some q =>
    refine (keeps_checkBinding q uri offset).seq fun _ => ?_
    exact (keeps_claimQualifier q offset).seq fun _ => keeps_amend _

theorem keeps_schemaImport (offset : Nat) : Keeps (schemaImport offset) := by
  refine (keeps_whenEats rfl (keeps_capturedName 0)).seq fun qualifier => ?_
  have hrest (isDefault : Bool) : Keeps (do
      expect Terminal.namespaceUri
      let uri ← capturedString 0
      let locations ← locationHints
      bindImport qualifier uri offset
      if isDefault then
        claim .defaultElementNamespace .duplicateDefaultNamespace offset
        amend (·.bind "" uri)
      if !(← amendGet (·.addSchemaImport uri locations)) then
        record .duplicateSchemaImport offset ("schema '" ++ uri ++ "' is imported more than once")
      return DeclarationKind.schemaImport ⟨qualifier, isDefault, uri, locations⟩) := by
    refine (keeps_expect rfl).seq fun _ => (keeps_capturedString 0).seq fun uri => ?_
    refine keeps_locationHints.seq fun locations => (keeps_bindImport _ _ _).seq fun _ => ?_
    have hend : Keeps (do
        if !(← amendGet (·.addSchemaImport uri locations)) then
          record .duplicateSchemaImport offset ("schema '" ++ uri ++ "' is imported more than once")
        return DeclarationKind.schemaImport ⟨qualifier, isDefault, uri, locations⟩) := by
      refine (keeps_amendGet _).seq fun _ => keeps_ite ?_ (keeps_pure _)
      exact (keeps_record _ _ _).seq fun _ => keeps_pure _
    refine keeps_ite ?_ hend
    exact (keeps_claim _ _ _).seq fun _ => (keeps_amend _).seq fun _ => hend
  refine keeps_ite ?_ ?_
  · exact (keeps_eat rfl).seq hrest
  · exact (keeps_pure false).seq hrest

theorem keeps_moduleImport (offset : Nat) : Keeps (moduleImport offset) := by
  refine (keeps_whenEats rfl (keeps_capturedName 0)).seq fun qualifier => ?_
  refine (keeps_expect rfl).seq fun _ => (keeps_capturedString 0).seq fun uri => ?_
  refine keeps_locationHints.seq fun locations => ?_
  have hend : Keeps (do
      bindImport qualifier uri offset
      let isNew ← amendGet (·.addModuleImport uri locations)
      if !isNew then
        record .duplicateModuleImport offset ("module '" ++ uri ++ "' is imported more than once")
      return (ModuleImport.mk qualifier uri locations, isNew)) := by
    refine (keeps_bindImport _ _ _).seq fun _ => (keeps_amendGet _).seq fun isNew => ?_
    exact keeps_ite ((keeps_record _ _ _).seq fun _ => keeps_pure _) (keeps_pure _)
  exact keeps_ite ((keeps_record _ _ _).seq fun _ => hend) hend

theorem level_componentDecl (offset : Nat) : Level (componentDecl offset) := by
  refine keeps_annotationList.level.bind fun annotations => ?_
  have hkind : Keeps functionKind := by
    refine (keeps_eatFirst ?_).seq fun _ => keeps_pure _
    simp only [List.forall_mem_cons]
    exact ⟨rfl, rfl, rfl, fun _ h => nomatch h⟩
  refine hkind.level.bind fun kind => level_ifEat (flat_goto _) ?_ (level_ifEat flat_stay ?_ ?_)
  · exact (level_variableDecl annotations offset).bind fun _ => level_pure _
  · exact (level_functionDecl annotations kind offset).bind fun _ => level_pure _
  · exact level_ite ((level_unexpected _).bind fun _ => level_pure _) (level_pure _)

theorem level_declared (offset : Nat) : Level (declared offset) := by
  refine (level_setterDecl offset).bind ?_
  rintro (_ | kind)
  · refine level_ifEat flat_stay ?_ (fun k => course_ifEat rfl ?_ (level_ifEat flat_stay ?_
      (level_ifEat (flat_goto _) ?_ ?_) k))
    · exact (keeps_optionDecl offset).level.bind fun _ => level_pure _
    · refine course_bind (suffix_ftOptionDecl k.saved) ?_
      rintro _ _ rfl
      exact course_pure rfl
    · exact (keeps_revalidationDecl offset).level.bind fun _ => level_pure _
    · exact (level_contextItemDecl offset).bind fun _ => level_pure _
    · refine (level_componentDecl offset).bind ?_
      rintro (_ | kind) <;> exact level_pure _
  · exact level_pure _

/-- A declaration ends with the saved states with which it began; if there is none, the scanner is
where it was, since a word that was a name after all is given back. -/
theorem course_declarationHead : Course k declarationHead fun found k' =>
    found.elim (k' = k) fun _ => k'.saved = k.saved := by
  refine course_mark fun place hplace => course_ifEat rfl ?_ (course_ifEat rfl ?_ ?_)
  · refine keeps_start.course_bind fun offset => (keeps_schemaImport offset).course_bind fun _ => ?_
    exact course_pure rfl
  · refine keeps_start.course_bind fun offset => ?_
    exact (keeps_moduleImport offset).course_bind fun ⟨library, isNew⟩ => course_pure rfl
  · refine course_bind (leads_eatFirst (t := .goto .declare) rfl ?_) ?_
    · simp only [List.forall_mem_cons]
      exact ⟨rfl, rfl, fun _ h => nomatch h⟩
    rintro (_ | _) _ rfl
    · exact course_pure rfl
    · refine keeps_start.course_bind fun offset => ?_
      refine course_bind (level_declared offset _) ?_
      rintro (_ | ⟨kind, part⟩) k₁ hk₁
      · refine course_bind (leads_restore hplace) ?_
        rintro _ _ rfl
        exact course_pure rfl
      · exact course_pure hk₁

/-! ### Modules -/

section

variable {σ : Type}

theorem course_lift {α : Type} {p : Parser α} {after : α → StateStack → Prop}
    (h : Course k p after) : Course k (lift p : ModuleParser σ α) after := by
  rintro ⟨s, imports⟩ hs
  have hp := h s hs
  unfold lift
  dsimp only
  cases hr : p s with
  | error e s₁ =>
    rw [hr] at hp
    exact ⟨hp.1, fun _ _ h => nomatch h⟩
  | ok a s₁ =>
    rw [hr] at hp
    refine ⟨hp.1, ?_⟩
    rintro _ _ ⟨⟩
    exact hp.2 a s₁ rfl

theorem keeps_lift {α : Type} {p : Parser α} (h : Keeps p) :
    Keeps (lift p : ModuleParser σ α) :=
  fun k => course_lift (h k)

theorem keeps_importFailed (error : ImportError) (offset : Nat) :
    Keeps (importFailed error offset) := by
  cases error with
  | cycle chain => exact keeps_fatal _ _ _
  | unreadable location reason => exact keeps_record _ _ _
  | broken location e => exact keeps_fatal _ _ _
  | tooDeep limit => exact keeps_record _ _ _

theorem keeps_takeOver (loaded : ParsedModule) (location uri : String) (offset : Nat) :
    Keeps (takeOver loaded location uri offset) := by
  refine keeps_ite ((keeps_record _ _ _).seq fun _ => keeps_pure _) ?_
  refine (keeps_amendGet _).seq fun clashes => ?_
  exact (keeps_forIn (fun name => keeps_record _ _ _) clashes).seq fun _ => keeps_pure ()

/-- Whatever the importer does, it does not touch the scanner of the importing module. -/
theorem keeps_loadFrom (importer : Importer σ) (uri : String) (offset : Nat) (location : String) :
    Keeps (loadFrom importer uri offset location) := by
  rintro k ⟨s, imports⟩ hs
  unfold loadFrom
  dsimp only
  match importer.load location imports with
  | (.ok loaded, imports') =>
    exact keeps_lift (keeps_takeOver loaded location uri offset) k (s, imports') hs
  | (.error error, imports') =>
    exact keeps_lift (keeps_importFailed error offset) k (s, imports') hs

theorem keeps_loadImport (importer : Option (Importer σ)) (library : ModuleImport) (offset : Nat) :
    Keeps (loadImport importer library offset) := by
  cases importer with
  | none => exact keeps_pure _
  | some importer =>
    refine keeps_get.seq fun ⟨s, imports⟩ => ?_
    have hload (locations : List String) : Keeps (do
        for location in locations do
          loadFrom importer library.targetNamespace offset location : ModuleParser σ Unit) :=
      (keeps_forIn (keeps_loadFrom importer _ offset) locations).seq fun _ => keeps_pure ()
    exact keeps_ite ((keeps_lift (keeps_record _ _ _)).seq fun _ => hload _) (hload _)

/-- A prolog leaves the scanner before the body of the module. -/
theorem leads_declarationsWithin (importer : Option (Importer σ)) (n : Nat) (part : Section) :
    Leads ⟨.expression, S⟩ (declarationsWithin importer n part) fun _ => ⟨.expression, S⟩ := by
  induction n generalizing part with
  | zero => exact course_lift course_exhausted
  | succ n ih =>
    refine course_bind (course_lift course_declarationHead) ?_
    rintro (_ | head) k hk
    · exact leads_pure hk
    have hgoto : k.goto .expression = ⟨.expression, S⟩ := congrArg (StateStack.mk .expression) hk
    have hsemicolon : Leads k (lift (expect Terminal.semicolon) : ModuleParser σ Unit)
        fun _ => ⟨.expression, S⟩ := by
      rw [← hgoto]
      exact course_lift (leads_expect rfl)
    dsimp -zeta only
    extract_lets further rest
    have hfurther (u : Unit) : Leads ⟨.expression, S⟩ (further u) fun _ => ⟨.expression, S⟩ :=
      leads_bind (ih _) fun _ => leads_pure rfl
    have hrest (u : Unit) : Leads k (rest u) fun _ => ⟨.expression, S⟩ := by
      refine leads_bind hsemicolon fun _ => course_ite (fun _ => ?_) fun _ => hfurther ()
      exact (keeps_lift (keeps_record _ _ _)).bind hfurther
    split
    · exact (keeps_loadImport importer _ _).bind hrest
    · exact hrest ()

theorem leads_prolog (importer : Option (Importer σ)) (version : Option VersionDecl) :
    Leads ⟨.expression, S⟩ (prolog importer version) fun _ => ⟨.expression, S⟩ :=
  keeps_get.bind fun ⟨_, _⟩ => leads_bind (leads_declarationsWithin _ _ _) fun _ => leads_pure rfl

end

theorem leads_checkVersion (decl : VersionDecl) :
    Leads k (checkVersion decl) fun _ => k.goto .expression := by
  unfold checkVersion
  extract_lets finish checkEncoding
  have hfinish (u : Unit) : Leads k (finish u) fun _ => k.goto .expression :=
    leads_bind (leads_expect rfl) fun _ => leads_pure rfl
  have hencoding (u : Unit) : Leads k (checkEncoding u) fun _ => k.goto .expression := by
    dsimp only [checkEncoding]
    split
    · refine course_ite (fun _ => ?_) fun _ => (keeps_record _ _ _).bind hfinish
      exact (keeps_warn _ _ _).bind hfinish
    · exact hfinish ()
  split
  · exact course_ite (fun _ => (keeps_record _ _ _).bind hencoding) fun _ => hencoding ()
  · exact hencoding ()

theorem leads_versionDecl :
    Leads ⟨.expression, S⟩ versionDecl fun _ => ⟨.expression, S⟩ := by
  refine course_ifEat rfl ?_ (course_ifEat rfl ?_ (leads_pure rfl))
  · refine keeps_start.bind fun offset => (keeps_capturedString 0).bind fun version => ?_
    refine (keeps_whenEats rfl (keeps_capturedString 0)).bind fun encoding => ?_
    exact leads_bind (leads_checkVersion _) fun _ => leads_pure rfl
  · refine keeps_start.bind fun offset => (keeps_capturedString 0).bind fun encoding => ?_
    exact leads_bind (leads_checkVersion _) fun _ => leads_pure rfl

theorem leads_libraryHeader (hasLocation : Bool) :
    Leads k (libraryHeader hasLocation) fun _ => k.goto .expression := by
  refine leads_bind (leads_expect rfl) fun _ => keeps_start.bind fun offset => ?_
  refine (keeps_expect rfl).bind fun _ => (keeps_capturedName 0).bind fun qualifier => ?_
  refine (keeps_capturedString 1).bind fun uri => ?_
  extract_lets rest
  have hrest (u : Unit) :
      Leads (k.goto .namespaceDeclaration) (rest u) fun _ => k.goto .expression := by
    refine (keeps_checkBinding _ _ _).bind fun _ => (keeps_amend _).bind fun _ => ?_
    refine Keeps.bind (keeps_modify fun _ => rfl) fun _ => ?_
    exact leads_bind (leads_expect rfl) fun _ => leads_pure rfl
  exact course_ite (fun _ => (keeps_record _ _ _).bind hrest) fun _ => hrest ()

/-- The body of a main module may end where its last statement does. -/
theorem course_queryBody : Course ⟨.expression, S⟩ (queryBody exprSingle) fun _ k => k.saved = S := by
  refine keeps_nextOffset.course_bind fun offset => ?_
  refine course_bind (operand_expr operand_exprSingle S) ?_
  rintro first _ rfl
  refine course_bind (leads_eat rfl) ?_
  rintro (_ | _) _ rfl
  · exact course_pure rfl
  have hstep (body : List Expr) (k : StateStack) (hk : k = ⟨.expression, S⟩) :
      Course k (queryStatement exprSingle body)
        (Sum.elim (fun _ k' => k' = ⟨.expression, S⟩) fun _ k' => k'.saved = S) := by
    subst hk
    refine keeps_atEnd.course_bind fun _ => course_ite (fun _ => course_pure rfl) fun _ => ?_
    refine course_bind (operand_expr operand_exprSingle S) ?_
    rintro e _ rfl
    exact course_ifEat rfl (course_pure rfl) (course_pure rfl)
  refine course_bind (course_iterate hstep [first] rfl) fun body k hk => ?_
  exact (keeps_node _ _).course_bind fun _ => course_pure hk

theorem keeps_expectEnd : Keeps expectEnd :=
  keeps_atEnd.seq fun _ => keeps_ite (keeps_unexpected _) (keeps_pure ())

/-- A module begins before an operand and ends with the saved states with which it began. -/
theorem course_moduleUnit {σ : Type} (importer : Option (Importer σ)) (kind : Option ModuleKind)
    (hasLocation : Bool) :
    Course ⟨.expression, S⟩ (moduleUnit importer kind hasLocation) fun _ k => k.saved = S := by
  have hmain (version : Option VersionDecl) :
      Course ⟨.expression, S⟩ (mainModule importer version) fun _ k => k.saved = S := by
    refine course_bind (leads_prolog importer version) ?_
    rintro declarations _ rfl
    refine course_bind (course_lift course_queryBody) fun body k hk => ?_
    exact (keeps_lift keeps_expectEnd).course_bind fun _ => course_pure hk
  have hlibrary (version : Option VersionDecl) :
      Course ⟨.expression, S⟩ (libraryModule importer hasLocation version) fun _ k =>
        k.saved = S := by
    refine course_bind (course_lift (leads_libraryHeader hasLocation)) ?_
    rintro ⟨qualifier, uri⟩ _ rfl
    refine course_bind (leads_prolog importer version) ?_
    rintro declarations _ rfl
    exact (keeps_lift keeps_expectEnd).course_bind fun _ => course_pure rfl
  refine course_bind (course_lift leads_versionDecl) ?_
  rintro version _ rfl
  refine (keeps_lift (keeps_peek _)).course_bind fun isLibrary => ?_
  split
  · exact course_lift (keeps_nextOffset.course_bind fun _ => course_fatal _ _ _)
  · exact hlibrary version
  · exact hlibrary version
  · exact hmain version

/-- In whatever state the text and the configuration put the parser, an expression up to the end of
the text begins before an operand and ends behind one. -/
theorem operand_expressionUnit : Operand expressionUnit :=
  fun S => leads_bind (operand_expr operand_exprSingle S) fun _ =>
    keeps_expectEnd.bind fun _ => leads_pure rfl

end XQuerySyntax.Grammar

/-! ### Whole parses

The discipline of the lexical states in a whole parse: what reads an operand ends behind it, markup
comes back to the state in which it was opened, and the scanner never comes back from nothing. -/

namespace XQuerySyntax.Grammar

open XQuerySyntax.Parser

/-- The parsers of single expressions over which a parse takes the productions. -/
def IsSingle (single : Parser Expr) : Prop :=
  single = exprSingle ∨ ∃ n, single = singleWithin n

/-- Expressions, single expressions, the layers of operators and paths. -/
def operandProductions (single : Parser Expr) : List (Parser Expr) :=
  [expr single, single, orExpr single, andExpr single, comparisonExpr single,
    ftContainsExpr single, rangeExpr single, additiveExpr single, multiplicativeExpr single,
    unionExpr single, intersectExpr single, instanceOfExpr single, treatExpr single,
    castableExpr single, castExpr single, unaryExpr single, valueExpr single, pathExpr single,
    requiredStep single]

/-- Steps and primary expressions, which may be absent. -/
def optionalProductions (single : Parser Expr) : List (Parser (Option Expr)) :=
  [stepExpr single, primary single, axisStep single, directConstructor single,
    computedConstructor single, flwor single, updateExpr single, scriptingExpr single]

variable {single : Parser Expr}

theorem IsSingle.operand (h : IsSingle single) : Operand single := by
  obtain rfl | ⟨n, rfl⟩ := h
  · exact operand_exprSingle
  · exact operand_singleWithin n

theorem operand_of_mem_operandProductions (h : Operand single) {p : Parser Expr}
    (hp : p ∈ operandProductions single) : Operand p := by
  have hall : ∀ p ∈ operandProductions single, Operand p := by
    simp only [operandProductions, List.forall_mem_cons]
    exact ⟨operand_expr h, h, operand_orExpr h, operand_andExpr h, operand_comparisonExpr h,
      operand_ftContainsExpr h, operand_rangeExpr h, operand_additiveExpr h,
      operand_multiplicativeExpr h, operand_unionExpr h, operand_intersectExpr h,
      operand_instanceOfExpr h, operand_treatExpr h, operand_castableExpr h, operand_castExpr h,
      operand_unaryExpr h, operand_valueExpr h, operand_pathExpr h, operand_requiredStep h,
      fun _ h => nomatch h⟩
  exact hall p hp

theorem optionalOperand_of_mem_optionalProductions (h : Operand single) {p : Parser (Option Expr)}
    (hp : p ∈ optionalProductions single) : OptionalOperand p := by
  have hall : ∀ p ∈ optionalProductions single, OptionalOperand p := by
    simp only [optionalProductions, List.forall_mem_cons]
    exact ⟨optionalOperand_stepExpr h, optionalOperand_primary h, optionalOperand_axisStep h,
      optionalOperand_directConstructor h, optionalOperand_computedConstructor h,
      optionalOperand_flwor h, optionalOperand_updateExpr h, optionalOperand_scriptingExpr h,
      fun _ h => nomatch h⟩
  exact hall p hp

/-- What holds of the stack in front of a parser and its answer holds of the stack behind it. -/
theorem stack_of_leads {α : Type} {p : Parser α} {k : StateStack} {target : α → StateStack}
    {s s' : ParserState} {a : α} (h : Leads k p target) (hs : s.scan.stack = k) (hp : p s = .ok a s') :
    s'.scan.stack = target a :=
  (h s hs).2 a s' hp

/-- A rule matches only where it is allowed, and then makes its state change. -/
theorem stack_of_eat {r : Rule} {s s' : ParserState} (hr : s.scan.stack.isStray r.next = false)
    (h : eat r s = .ok true s') :
    r.states.contains s.scan.state ∧ s'.scan.stack = s.scan.stack.apply r.next := by
  have hstack := stack_of_leads (leads_eat hr) rfl h
  refine ⟨?_, hstack⟩
  unfold eat Parser.scan at h
  obtain ⟨m, _, ha, _⟩ | ⟨_, he, _⟩ | ⟨d, _, he, _⟩ := Scan.eat_cases r s.scan
  · exact (Bool.and_eq_true _ _ ▸ ha : _ ∧ _).1
  · rw [he] at h
    cases h
  · rw [he] at h
    cases h

/-- In every parse, whatever reads an operand from in front of it ends behind it with the same saved
states; an element ends in the state that its opener recorded, behind an operand or in the content
around it; an enclosed expression ends in the markup in which its brace was read; and no parse, well
or not, comes back from a state that was not saved. -/
theorem lexical_states_are_restored :
    (∀ single, IsSingle single → ∀ s s' : ParserState, s.scan.state = .expression →
      (∀ p ∈ operandProductions single, ∀ e, p s = .ok e s' →
        s'.scan.stack = ⟨.operator, s.scan.stack.saved⟩) ∧
      (∀ p ∈ optionalProductions single, ∀ e, p s = .ok (some e) s' →
        s'.scan.stack = ⟨.operator, s.scan.stack.saved⟩)) ∧
    (∀ single, IsSingle single → ∀ (s s₁ s₂ : ParserState) (n offset : Nat) (e : Expr),
      dirElementWithin single n offset s₁ = .ok e s₂ →
      (eat Terminal.elementOpen s = .ok true s₁ →
        s₁.scan.stack = ⟨.tag, .operator :: s.scan.stack.saved⟩ ∧
        s₂.scan.stack = ⟨.operator, s.scan.stack.saved⟩) ∧
      (eat Terminal.nestedElementOpen s = .ok true s₁ →
        s₁.scan.stack = ⟨.tag, .content :: s.scan.stack.saved⟩ ∧
        s₂.scan.stack = ⟨.content, s.scan.stack.saved⟩)) ∧
    (∀ single, IsSingle single → ∀ (s s₁ s₂ : ParserState) (e : Expr),
      eat Terminal.enclosedOpen s = .ok true s₁ → enclosedContent single s₁ = .ok e s₂ →
      s.scan.state ∈ [.content, .apostropheValue, .quotedValue] ∧ s₂.scan.stack = s.scan.stack) ∧
    (∀ text config, (expressionUnit (.ofText text config)).state.scan.strayPops = 0) ∧
    (∀ (σ : Type) (importer : Option (Importer σ)) kind hasLocation text config imports,
      (moduleUnit importer kind hasLocation
        (.ofText text config, imports)).state.1.scan.strayPops = 0) := by
  refine ⟨?_, ?_, ?_, ?_, ?_⟩
  · intro single hsingle s s' hs
    have hstack : s.scan.stack = ⟨.expression, s.scan.stack.saved⟩ :=
      congrArg (StateStack.mk · s.scan.stack.saved) hs
    refine ⟨fun p hp e he => ?_, fun p hp e he => ?_⟩
    · have hk := stack_of_leads (operand_of_mem_operandProductions hsingle.operand hp _) hstack he
      exact hk
    · have hk := stack_of_leads (optionalOperand_of_mem_optionalProductions hsingle.operand hp _)
        hstack he
      exact hk
  · intro single hsingle s s₁ s₂ n offset e he
    have hend {r : LexicalState} {S : List LexicalState} (h : s₁.scan.stack = ⟨.tag, r :: S⟩) :
        s₂.scan.stack = ⟨r, S⟩ := by
      have hk := stack_of_leads (leads_dirElementWithin hsingle.operand n offset) h he
      exact hk
    refine ⟨fun ho => ?_, fun ho => ?_⟩
    · have h₁ := (stack_of_eat rfl ho).2
      exact ⟨h₁, hend h₁⟩
    · obtain ⟨hstate, h₁⟩ := stack_of_eat rfl ho
      have hcontent : s.scan.state = .content := by
        simpa [Terminal.nestedElementOpen, Terminal.core, Terminal.content, StateSet.only,
          StateSet.ofList] using hstate
      rw [show s.scan.stack = ⟨.content, s.scan.stack.saved⟩ from
        congrArg (StateStack.mk · s.scan.stack.saved) hcontent] at h₁
      exact ⟨h₁, hend h₁⟩
  · intro single hsingle s s₁ s₂ e ho he
    obtain ⟨hstate, h₁⟩ := stack_of_eat rfl ho
    have h₂ := stack_of_leads (leads_enclosedContent hsingle.operand) h₁ he
    refine ⟨?_, h₂⟩
    simpa [Terminal.enclosedOpen, Terminal.core, Terminal.contentOrAttribute,
      StateSet.ofList] using hstate
  · exact fun text config => (operand_expressionUnit [] (.ofText text config) rfl).1
  · exact fun σ importer kind hasLocation text config imports =>
      (course_moduleUnit importer kind hasLocation (.ofText text config, imports) rfl).1

end XQuerySyntax.Grammar
