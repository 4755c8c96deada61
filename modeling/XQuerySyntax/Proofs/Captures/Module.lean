import XQuerySyntax.Grammar.Declaration
import XQuerySyntax.Grammar.Module
import XQuerySyntax.Proofs.Captures.Expr

/-! Prologs and whole parses read captures behind their own matches only. A declaration whose opener captures
something is read by a parser of its own, which needs that match in front of it. The modules that an importer
loads are parses of their own, with captures of their own. -/

namespace XQuerySyntax.Grammar

open XQuerySyntax.Parser

/-! ### Setters -/

theorem supplied_claim (setter : Setter) (code : ErrorCode) (offset : Nat) :
    Supplied (claim setter code offset) :=
  (supplied_amendGet _).seq fun _ => supplied_ite (supplied_record _ _ _) (supplied_pure ())

theorem supplied_claimQualifier (qualifier : String) (offset : Nat) :
    Supplied (claimQualifier qualifier offset) :=
  supplied_get.seq fun _ => supplied_ite (supplied_record _ _ _) fun _ => rfl

theorem supplied_eitherWord {α : Type} (first second : Rule × α) : Supplied (eitherWord first second) :=
  supplied_ifEat (supplied_pure _) ((supplied_expect _).seq fun _ => supplied_pure _)

/-- A setting that is claimed and then put into the static context. -/
theorem supplied_claimed (setter : Setter) (code : ErrorCode) (offset : Nat) (f : StaticContext → StaticContext)
    (kind : DeclarationKind) : Supplied (do
      claim setter code offset
      amend f
      return kind) :=
  (supplied_claim setter code offset).seq fun _ => (supplied_amend f).seq fun _ => supplied_pure kind

theorem suppliedBy_defaultCollationDecl (offset : Nat) : SuppliedBy [.string] (defaultCollationDecl offset) :=
  (suppliedBy_captured rfl).seq fun _ => supplied_claimed _ _ _ _ _

theorem suppliedBy_baseUriDecl (offset : Nat) : SuppliedBy [.string] (baseUriDecl offset) :=
  (suppliedBy_captured rfl).seq fun _ => supplied_claimed _ _ _ _ _

theorem supplied_copyNamespacesDecl (offset : Nat) : Supplied (copyNamespacesDecl offset) := by
  refine (supplied_eitherWord _ _).seq fun preserve => (supplied_expect _).seq fun _ => ?_
  exact (supplied_eitherWord _ _).seq fun inherit => supplied_claimed _ _ _ _ _

theorem supplied_revalidationDecl (offset : Nat) : Supplied (revalidationDecl offset) := by
  refine supplied_ifEat ?_ ?_
  · exact (supplied_pure _).seq fun mode => supplied_claimed _ _ _ _ _
  · exact (supplied_eitherWord _ _).seq fun mode => supplied_claimed _ _ _ _ _

theorem supplied_addFormatProperty (format : DecimalFormat) : Supplied (addFormatProperty format) := by
  refine supplied_unlessCaptures (supplied_pure _) (spares_start.bind fun offset => ?_)
  refine suppliedBy_read (by decide) fun name => (suppliedBy_captured (by decide)).seq fun value => ?_
  dsimp only
  split
  · exact supplied_fatal _ _ _
  · refine supplied_ite ((supplied_record _ _ _).seq fun _ => supplied_pure _) ?_
    exact supplied_ite ((supplied_record _ _ _).seq fun _ => supplied_pure _) (supplied_pure _)

theorem supplied_decimalFormatDecl (name : Option QName) (offset : Nat) :
    Supplied (decimalFormatDecl name offset) := by
  refine (supplied_iterate supplied_addFormatProperty []).seq fun format => ?_
  refine (supplied_amendGet _).seq fun _ => supplied_ite ?_ (supplied_pure _)
  exact (supplied_record _ _ _).seq fun _ => supplied_pure _

theorem suppliedBy_defaultNamespaceDecl (kind : DefaultNamespaceKind) (offset : Nat) :
    SuppliedBy [.string] (defaultNamespaceDecl kind offset) := by
  refine (suppliedBy_captured rfl).seq fun uri => (supplied_claim _ _ _).seq fun _ => ?_
  refine (supplied_checkDefaultNamespace uri offset).seq fun _ => ?_
  cases kind with
  | element => exact (supplied_amend _).seq fun _ => supplied_pure _
  | function => exact (supplied_amend _).seq fun _ => supplied_pure _

theorem supplied_namespaceDecl (offset : Nat) : Supplied (namespaceDecl offset) := by
  refine supplied_expectCaptures (suppliedBy_read (by decide) fun qualifier => ?_)
  refine (suppliedBy_captured (by decide)).seq fun uri => (supplied_checkBinding _ _ _).seq fun _ => ?_
  exact (supplied_claimQualifier _ _).seq fun _ => (supplied_amend _).seq fun _ => supplied_pure _

theorem suppliedBy_optionDecl (offset : Nat) : SuppliedBy [.qualifiedName, .string] (optionDecl offset) := by
  refine suppliedBy_read rfl fun name => (suppliedBy_captured rfl).seq fun value => ?_
  exact (supplied_plainName name offset).seq fun _ => (supplied_amend _).seq fun _ => supplied_pure _

theorem supplied_ftOptionDecl : Supplied ftOptionDecl := by
  have hend (options : FtMatchOptions) : Supplied (do
      amend fun c => { c with ftOptions := some options }
      return DeclarationKind.ftOption options) := (supplied_amend _).seq fun _ => supplied_pure _
  exact supplied_matchOptions.seq fun options => supplied_ite supplied_unexpected_bind (hend options)

theorem supplied_setterDecl (offset : Nat) : Supplied (setterDecl offset) := by
  refine supplied_ifEat ?_ (supplied_ifCaptures (suppliedBy_defaultCollationDecl offset).some
    (supplied_ifCaptures (suppliedBy_baseUriDecl offset).some (supplied_ifEat ?_ (supplied_ifEat ?_
    (supplied_ifEat ?_ (supplied_ifEat (supplied_copyNamespacesDecl offset).some
    (supplied_ifEat (supplied_decimalFormatDecl none offset).some (supplied_ifCaptures ?_
    (supplied_ifCaptures (suppliedBy_defaultNamespaceDecl _ offset).some
    (supplied_ifCaptures (suppliedBy_defaultNamespaceDecl _ offset).some
    (supplied_ifEat (supplied_namespaceDecl offset).some (supplied_pure none))))))))))))
  · exact Steady.some ((supplied_eitherWord _ _).seq fun _ => supplied_claimed _ _ _ _ _)
  · exact Steady.some ((supplied_eitherWord _ _).seq fun _ => supplied_claimed _ _ _ _ _)
  · exact Steady.some ((supplied_eitherWord _ _).seq fun _ => supplied_claimed _ _ _ _ _)
  · exact Steady.some ((supplied_eitherWord _ _).seq fun _ => supplied_claimed _ _ _ _ _)
  · refine (suppliedBy_captured (by decide)).seq fun name => (supplied_plainName name offset).seq fun name => ?_
    exact (supplied_decimalFormatDecl (some name) offset).some

/-! ### Declarations -/

theorem supplied_checkLibraryNamespace (name : QName) (what : String) (offset : Nat) :
    Supplied (checkLibraryNamespace name what offset) := by
  refine supplied_get.seq fun s => ?_
  split
  · exact supplied_pure ()
  · exact supplied_ite (supplied_record _ _ _) (supplied_pure ())

theorem supplied_initialValue : Supplied initialValue := by
  refine supplied_ifEat ?_ (supplied_ifEat ?_ (supplied_unexpected _))
  · exact supplied_exprSingle.seq fun _ => supplied_pure _
  · exact (supplied_whenEats supplied_exprSingle).seq fun _ => supplied_pure _

theorem supplied_variableDecl (annotations : List AnnotationDecl) (offset : Nat) :
    Supplied (variableDecl annotations offset) := by
  refine supplied_expectCaptures (spares_start.bind fun place => ?_)
  refine (suppliedBy_captured (by decide)).seq fun name => (supplied_plainName name place).seq fun name => ?_
  refine (supplied_checkLibraryNamespace _ _ _).seq fun _ => supplied_declaredType.seq fun type => ?_
  refine supplied_initialValue.seq fun ⟨value, isExternal⟩ => (supplied_amendGet _).seq fun _ => ?_
  exact supplied_ite ((supplied_record _ _ _).seq fun _ => supplied_pure _) (supplied_pure _)

theorem supplied_contextItemDecl (offset : Nat) : Supplied (contextItemDecl offset) := by
  refine supplied_declaredType.seq fun type => supplied_initialValue.seq fun ⟨value, isExternal⟩ => ?_
  exact supplied_claimed _ _ _ _ _

theorem supplied_declaredBody (kind : FunctionKind) : Supplied (declaredBody kind) := by
  refine supplied_ifEat (supplied_pure none) ((supplied_expect _).seq fun _ => ?_)
  refine (supplied_observe _).seq fun place => ?_
  exact (supplied_functionBody supplied_exprSingle _ place).some

/-- A function, whose name the opener has captured. -/
theorem suppliedBy_functionDecl (annotations : List AnnotationDecl) (kind : FunctionKind) (offset : Nat) :
    SuppliedBy [.qualifiedName] (functionDecl annotations kind offset) := by
  refine spares_start.bind fun place => (suppliedBy_captured rfl).seq fun name => ?_
  refine (supplied_functionName name place).seq fun name => ?_
  extract_lets rest
  have hrest (u : Unit) : Supplied (rest u) := by
    refine (supplied_checkLibraryNamespace _ _ _).seq fun _ => (supplied_expect _).seq fun _ => ?_
    refine supplied_paramList.seq fun params => supplied_declaredType.seq fun type => ?_
    refine (supplied_declaredBody kind).seq fun body => (supplied_amendGet _).seq fun _ => ?_
    exact supplied_ite ((supplied_record _ _ _).seq fun _ => supplied_pure _) (supplied_pure _)
  split
  · exact supplied_ite ((supplied_record _ _ _).seq hrest) (hrest ())
  · exact hrest ()

/-! ### Imports -/

theorem supplied_locationHints : Supplied locationHints := by
  refine supplied_ifCaptures ((suppliedBy_captured (by decide)).seq fun first => ?_) (supplied_pure _)
  exact (supplied_many (supplied_whenCaptures (suppliedBy_captured (by decide)))).seq fun _ => supplied_pure _

theorem supplied_bindImport (qualifier : Option String) (uri : String) (offset : Nat) :
    Supplied (bindImport qualifier uri offset) := by
  cases qualifier with
  | none => exact supplied_pure ()
  | some q =>
    refine (supplied_checkBinding q uri offset).seq fun _ => ?_
    exact (supplied_claimQualifier q offset).seq fun _ => supplied_amend _

/-- The qualifier of an import, which stands behind a word of its own. -/
theorem supplied_importQualifier : Supplied (whenEats Terminal.namespacePrefixed (capturedName 0)) :=
  supplied_whenCaptures (suppliedBy_captured (by decide))

theorem supplied_schemaImport (offset : Nat) : Supplied (schemaImport offset) := by
  refine supplied_importQualifier.seq fun qualifier => ?_
  have hrest (isDefault : Bool) : Supplied (do
      expect Terminal.namespaceUri
      let uri ← capturedString 0
      let locations ← locationHints
      bindImport qualifier uri offset
      if isDefault then
        claim .defaultElementNamespace .duplicateDefaultNamespace offset
        amend (·.bind "" uri)
      if !(← amendGet (·.addSchemaImport uri locations)) then
        record .duplicateSchemaImport offset ("schema '" ++ uri ++ "' is imported more than once")
      return DeclarationKind.schemaImport ⟨qualifier, isDefault, uri, locations⟩) := by
    refine supplied_expectCaptures ((suppliedBy_captured (by decide)).seq fun uri => ?_)
    refine supplied_locationHints.seq fun locations => (supplied_bindImport _ _ _).seq fun _ => ?_
    have hend : Supplied (do
        if !(← amendGet (·.addSchemaImport uri locations)) then
          record .duplicateSchemaImport offset ("schema '" ++ uri ++ "' is imported more than once")
        return DeclarationKind.schemaImport ⟨qualifier, isDefault, uri, locations⟩) := by
      refine (supplied_amendGet _).seq fun _ => supplied_ite ?_ (supplied_pure _)
      exact (supplied_record _ _ _).seq fun _ => supplied_pure _
    refine supplied_ite ?_ hend
    exact (supplied_claim _ _ _).seq fun _ => (supplied_amend _).seq fun _ => hend
  exact supplied_ite ((supplied_eat _).seq hrest) ((supplied_pure false).seq hrest)

theorem supplied_moduleImport (offset : Nat) : Supplied (moduleImport offset) := by
  refine supplied_importQualifier.seq fun qualifier => ?_
  refine supplied_expectCaptures ((suppliedBy_captured (by decide)).seq fun uri => ?_)
  refine supplied_locationHints.seq fun locations => ?_
  have hend : Supplied (do
      bindImport qualifier uri offset
      let isNew ← amendGet (·.addModuleImport uri locations)
      if !isNew then
        record .duplicateModuleImport offset ("module '" ++ uri ++ "' is imported more than once")
      return (ModuleImport.mk qualifier uri locations, isNew)) := by
    refine (supplied_bindImport _ _ _).seq fun _ => (supplied_amendGet _).seq fun isNew => ?_
    exact supplied_ite ((supplied_record _ _ _).seq fun _ => supplied_pure _) (supplied_pure _)
  exact supplied_ite ((supplied_record _ _ _).seq fun _ => hend) hend

/-! ### Prologs -/

theorem supplied_componentDecl (offset : Nat) : Supplied (componentDecl offset) := by
  have hkind : Supplied functionKind := (supplied_eatFirst _).seq fun _ => supplied_pure _
  refine supplied_annotationList.seq fun annotations => hkind.seq fun kind => ?_
  refine supplied_ifEat ?_ (supplied_ifCaptures ?_ (supplied_ite supplied_unexpected_bind (supplied_pure none)))
  · exact (supplied_variableDecl annotations offset).seq fun _ => supplied_pure _
  · exact (suppliedBy_functionDecl annotations kind offset).seq fun _ => supplied_pure _

theorem supplied_declared (offset : Nat) : Supplied (declared offset) := by
  refine (supplied_setterDecl offset).seq ?_
  rintro (_ | kind)
  · refine supplied_ifCaptures ?_ (supplied_ifEat ?_ (supplied_ifEat ?_ (supplied_ifEat ?_
      ((supplied_componentDecl offset).seq ?_))))
    · exact (suppliedBy_optionDecl offset).seq fun _ => supplied_pure _
    · exact supplied_ftOptionDecl.seq fun _ => supplied_pure _
    · exact (supplied_revalidationDecl offset).seq fun _ => supplied_pure _
    · exact (supplied_contextItemDecl offset).seq fun _ => supplied_pure _
    · rintro (_ | kind)
      · exact supplied_pure none
      · exact supplied_pure _
  · exact supplied_pure _

theorem supplied_declarationHead : Supplied declarationHead := by
  refine supplied_mark.seq fun place => supplied_ifEat ?_ (supplied_ifEat ?_
    ((supplied_eatFirst _).seq fun _ => ?_))
  · exact (supplied_observe _).seq fun offset => (supplied_schemaImport offset).seq fun _ => supplied_pure _
  · refine (supplied_observe _).seq fun offset => ?_
    exact (supplied_moduleImport offset).seq fun ⟨library, isNew⟩ => supplied_pure _
  · refine supplied_ite (supplied_pure none) ((supplied_observe _).seq fun offset => ?_)
    refine (supplied_declared offset).seq ?_
    rintro (_ | ⟨kind, part⟩)
    · exact (supplied_restore place).seq fun _ => supplied_pure none
    · exact supplied_pure _

variable {σ : Type}

/-! ### Headers -/

theorem supplied_checkVersion (decl : VersionDecl) : Supplied (checkVersion decl) := by
  unfold checkVersion
  extract_lets finish checkEncoding
  have hfinish (u : Unit) : Supplied (finish u) := (supplied_expect _).seq fun _ => supplied_pure _
  have hencoding (u : Unit) : Supplied (checkEncoding u) := by
    dsimp only [checkEncoding]
    split
    · exact supplied_ite ((supplied_warn _ _ _).seq hfinish) ((supplied_record _ _ _).seq hfinish)
    · exact hfinish ()
  split
  · exact supplied_ite ((supplied_record _ _ _).seq hencoding) (hencoding ())
  · exact hencoding ()

theorem supplied_versionDecl : Supplied versionDecl := by
  refine supplied_ifCaptures ?_ (supplied_ifCaptures ?_ (supplied_pure none))
  · refine spares_start.bind fun offset => (suppliedBy_captured (by decide)).seq fun version => ?_
    refine (supplied_whenCaptures (suppliedBy_captured (by decide))).seq fun encoding => ?_
    exact (supplied_checkVersion _).some
  · refine spares_start.bind fun offset => (suppliedBy_captured (by decide)).seq fun encoding => ?_
    exact (supplied_checkVersion _).some

theorem supplied_libraryHeader (hasLocation : Bool) : Supplied (libraryHeader hasLocation) := by
  refine (supplied_expect _).seq fun _ => (supplied_observe _).seq fun offset => ?_
  refine supplied_expectCaptures (suppliedBy_read (by decide) fun qualifier => ?_)
  refine (suppliedBy_captured (by decide)).seq fun uri => ?_
  extract_lets rest
  have hrest (u : Unit) : Supplied (rest u) := by
    refine (supplied_checkBinding _ _ _).seq fun _ => (supplied_amend _).seq fun _ => ?_
    exact Steady.seq (fun _ => rfl) fun _ => (supplied_expect _).seq fun _ => supplied_pure _
  exact supplied_ite ((supplied_record _ _ _).seq hrest) (hrest ())

theorem supplied_expectEnd : Supplied expectEnd :=
  supplied_atEnd.seq fun _ => supplied_ite (supplied_unexpected _) (supplied_pure ())

/-! ### Imported modules -/

/-- Beside the state of an importer, the count is that of the module being parsed. -/
theorem supplied_lift {α : Type} {p : Parser α} (h : Supplied p) :
    Steady (fun s => s.1.strayReads) (lift p : ModuleParser σ α) := by
  rintro ⟨s, imports⟩
  have hp := h s
  unfold lift
  dsimp only
  cases hr : p s with
  | ok a s₁ =>
    rw [hr] at hp
    exact hp
  | error e s₁ =>
    rw [hr] at hp
    exact hp

theorem supplied_importFailed (error : ImportError) (offset : Nat) : Supplied (importFailed error offset) := by
  cases error with
  | cycle chain => exact supplied_fatal _ _ _
  | unreadable location reason => exact supplied_record _ _ _
  | broken location e => exact supplied_fatal _ _ _
  | tooDeep limit => exact supplied_record _ _ _

theorem supplied_takeOver (loaded : ParsedModule) (location uri : String) (offset : Nat) :
    Supplied (takeOver loaded location uri offset) := by
  refine supplied_ite ((supplied_record _ _ _).seq fun _ => supplied_pure _) ?_
  refine (supplied_amendGet _).seq fun clashes => ?_
  exact (supplied_forIn (fun name => supplied_record _ _ _) clashes).seq fun _ => supplied_pure ()

/-- Whatever the importer does, the importing module has read no capture meanwhile. -/
theorem supplied_loadFrom (importer : Importer σ) (uri : String) (offset : Nat) (location : String) :
    Steady (fun s => s.1.strayReads) (loadFrom importer uri offset location) := by
  rintro ⟨s, imports⟩
  unfold loadFrom
  dsimp only
  obtain ⟨error | loaded, imports'⟩ := importer.load location imports
  · exact supplied_lift (supplied_importFailed error offset) (s, imports')
  · exact supplied_lift (supplied_takeOver loaded location uri offset) (s, imports')

theorem supplied_loadImport (importer : Option (Importer σ)) (library : ModuleImport) (offset : Nat) :
    Steady (fun s => s.1.strayReads) (loadImport importer library offset) := by
  cases importer with
  | none => exact supplied_pure _
  | some importer =>
    refine supplied_get.seq fun ⟨s, imports⟩ => ?_
    have hload (locations : List String) : Steady (fun s => s.1.strayReads) (do
        for location in locations do
          loadFrom importer library.targetNamespace offset location : ModuleParser σ Unit) :=
      (supplied_forIn (supplied_loadFrom importer _ offset) locations).seq fun _ => supplied_pure ()
    exact supplied_ite ((supplied_lift (supplied_record _ _ _)).seq fun _ => hload _) (hload _)

/-! ### Modules -/

theorem supplied_declarationsWithin (importer : Option (Importer σ)) (steps : Nat) (part : Section) :
    Steady (fun s => s.1.strayReads) (declarationsWithin importer steps part) := by
  induction steps generalizing part with
  | zero => exact supplied_lift supplied_exhausted
  | succ steps ih =>
    refine (supplied_lift supplied_declarationHead).seq ?_
    rintro (_ | head)
    · exact supplied_pure []
    dsimp -zeta only
    extract_lets further rest
    have hfurther (u : Unit) : Steady (fun s => s.1.strayReads) (further u) :=
      (ih _).seq fun _ => supplied_pure _
    have hrest (u : Unit) : Steady (fun s => s.1.strayReads) (rest u) := by
      refine (supplied_lift (supplied_expect _)).seq fun _ => supplied_ite ?_ (hfurther ())
      exact (supplied_lift (supplied_record _ _ _)).seq hfurther
    split
    · exact (supplied_loadImport importer _ _).seq hrest
    · exact hrest ()

theorem supplied_prolog (importer : Option (Importer σ)) (version : Option VersionDecl) :
    Steady (fun s => s.1.strayReads) (prolog importer version) :=
  supplied_get.seq fun ⟨_, _⟩ => (supplied_declarationsWithin _ _ _).seq fun _ => supplied_pure _

theorem supplied_moduleUnit (importer : Option (Importer σ)) (kind : Option ModuleKind) (hasLocation : Bool) :
    Steady (fun s => s.1.strayReads) (moduleUnit importer kind hasLocation) := by
  have hmain (version : Option VersionDecl) :
      Steady (fun s => s.1.strayReads) (mainModule importer version) := by
    refine (supplied_prolog importer version).seq fun declarations => ?_
    refine (supplied_lift (supplied_queryBody supplied_exprSingle)).seq fun body => ?_
    exact (supplied_lift supplied_expectEnd).seq fun _ => supplied_pure _
  have hlibrary (version : Option VersionDecl) :
      Steady (fun s => s.1.strayReads) (libraryModule importer hasLocation version) := by
    refine (supplied_lift (supplied_libraryHeader hasLocation)).seq fun ⟨qualifier, uri⟩ => ?_
    refine (supplied_prolog importer version).seq fun declarations => ?_
    exact (supplied_lift supplied_expectEnd).seq fun _ => supplied_pure _
  refine (supplied_lift supplied_versionDecl).seq fun version => ?_
  refine (supplied_lift (supplied_peek _)).seq fun isLibrary => ?_
  split
  · exact supplied_lift ((supplied_observe _).seq fun _ => supplied_fatal _ _ _)
  · exact hlibrary version
  · exact hlibrary version
  · exact hmain version

theorem supplied_expressionUnit : Supplied expressionUnit :=
  (supplied_expr supplied_exprSingle).seq fun _ => supplied_expectEnd.seq fun _ => supplied_pure _

end XQuerySyntax.Grammar

namespace XQuerySyntax

open Grammar

/-- A match keeps one capture for each placeholder of its pattern, in the order of the pattern: the value of
what has been scanned at that place. A reading that is there gives that value, and no parse ever makes one that
is not there, however it ends, and whatever the importer does. -/
theorem captures_fit_their_patterns :
    (∀ (parts : List PatternItem) (m m' : Matcher), Scan.pattern parts m = .ok true m' →
      m.Begins m'.token ∧
      (∃ behind, Walks m.state.skipsComments parts m'.token m'.captures behind) ∧
      m'.captures.map Capture.kind = capturedKinds parts) ∧
    (∀ (captures : Captures) i, captures.Faithful i) ∧
    (∀ text config, (expressionUnit (.ofText text config)).state.strayReads = 0) ∧
    ∀ (σ : Type) (importer : Option (Importer σ)) kind hasLocation text config (imports : σ),
      (moduleUnit importer kind hasLocation (.ofText text config, imports)).state.1.strayReads = 0 := by
  refine ⟨fun parts m m' hm => ?_, Captures.faithful, fun text config => ?_, ?_⟩
  · obtain ⟨hbegins, hwalks⟩ := Scan.walks_of_pattern hm
    exact ⟨hbegins, hwalks, Scan.kinds_of_pattern hm⟩
  · exact supplied_expressionUnit (.ofText text config)
  · intro σ importer kind hasLocation text config imports
    exact supplied_moduleUnit importer kind hasLocation (.ofText text config, imports)

end XQuerySyntax
