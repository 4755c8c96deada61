import XQuerySyntax.Proofs.Tree.Parse
import XQuerySyntax.Proofs.Order.Expr

/-! Declarations in order. The expressions of a declaration stand behind the place where it begins; where
the word that opens a declaration turns out to be a name, the parser comes back to that place. -/

namespace XQuerySyntax.Order

open XQuerySyntax.Parser XQuerySyntax.Grammar

variable {n b : Nat}

/-! ### Settings -/

theorem passes_claim (setter : Setter) (code : ErrorCode) (offset : Nat) : Passes (claim setter code offset) :=
  (passes_amendGet _).seq fun _ => passes_ite (passes_record _ _ _) (passes_pure ())

theorem passes_claimQualifier (qualifier : String) (offset : Nat) : Passes (claimQualifier qualifier offset) :=
  still_get.passes.seq fun _ => passes_ite (passes_record _ _ _) (still_modify fun _ => rfl).passes

theorem passes_eitherWord {α : Type} (first second : Rule × α) : Passes (eitherWord first second) :=
  passes_ifEat (passes_pure _) ((passes_expect _).seq fun _ => passes_pure _)

/-- A declaration whose expressions are behind a place and in order. -/
abbrev DeclaredInOrder (b : Nat) (kind : DeclarationKind) : Prop := InOrderAll b kind.exprs

/-- A setting that is claimed and then put into the static context. -/
theorem keeps_setting {setter : Setter} {code : ErrorCode} {offset : Nat} {f : StaticContext → StaticContext}
    {kind : DeclarationKind} (h : kind.exprs = []) : Keeps n b (do
      claim setter code offset
      amend f
      return kind) (DeclaredInOrder b) := by
  refine (passes_claim setter code offset).bind fun _ => (passes_amend f).bind fun _ => keeps_pure ?_
  rw [DeclaredInOrder, h]
  exact List.forall_mem_nil _

theorem keeps_copyNamespacesDecl (offset : Nat) : Keeps n b (copyNamespacesDecl offset) (DeclaredInOrder b) :=
  (passes_eitherWord _ _).bind fun _ => (passes_expect _).bind fun _ => (passes_eitherWord _ _).bind fun _ =>
    keeps_setting rfl

theorem keeps_revalidationDecl (offset : Nat) : Keeps n b (revalidationDecl offset) (DeclaredInOrder b) :=
  leads_ifEatStay (keeps_setting rfl) ((passes_eitherWord _ _).bind fun _ => keeps_setting rfl)

theorem passes_addFormatProperty (format : DecimalFormat) : Passes (addFormatProperty format) := by
  refine (passes_eat _).seq fun _ => passes_ite (passes_pure _) ?_
  refine (passes_observe _).seq fun offset => (passes_observe _).seq fun name => ?_
  refine (passes_observe _).seq fun value => ?_
  dsimp only
  split
  · exact fun _ _ => leads_fatal _ _ _
  · refine passes_ite ((passes_record _ _ _).seq fun _ => passes_pure _) ?_
    exact passes_ite ((passes_record _ _ _).seq fun _ => passes_pure _) (passes_pure _)

theorem keeps_decimalFormatDecl (name : Option QName) (offset : Nat) :
    Keeps n b (decimalFormatDecl name offset) (DeclaredInOrder b) := by
  refine (passes_iterate passes_addFormatProperty _).bind fun format => (passes_amendGet _).bind fun isNew => ?_
  have hend : Keeps n b (pure (DeclarationKind.decimalFormat name format)) (DeclaredInOrder b) :=
    keeps_pure (List.forall_mem_nil _)
  exact leads_ite (fun _ => (passes_record _ _ _).bind fun _ => hend) fun _ => hend

theorem keeps_defaultNamespaceDecl (kind : DefaultNamespaceKind) (offset : Nat) :
    Keeps n b (defaultNamespaceDecl kind offset) (DeclaredInOrder b) := by
  refine (passes_observe _).bind fun uri => (passes_claim _ _ offset).bind fun _ => ?_
  refine (passes_checkDefaultNamespace uri offset).bind fun _ => ?_
  cases kind <;> exact (passes_amend _).bind fun _ => keeps_pure (List.forall_mem_nil _)

theorem keeps_namespaceDecl (offset : Nat) : Keeps n b (namespaceDecl offset) (DeclaredInOrder b) := by
  refine (passes_expect _).bind fun _ => (passes_observe _).bind fun qualifier => ?_
  refine (passes_observe _).bind fun uri => (passes_checkBinding qualifier uri offset).bind fun _ => ?_
  refine (passes_claimQualifier qualifier offset).bind fun _ => (passes_amend _).bind fun _ => ?_
  exact keeps_pure (List.forall_mem_nil _)

theorem keeps_optionDecl (offset : Nat) : Keeps n b (optionDecl offset) (DeclaredInOrder b) := by
  refine (passes_observe _).bind fun lexical => (passes_observe _).bind fun value => ?_
  refine (passes_plainName lexical offset).bind fun name => (passes_amend _).bind fun _ => ?_
  exact keeps_pure (List.forall_mem_nil _)

theorem keeps_ftOptionDecl : Keeps n b ftOptionDecl (DeclaredInOrder b) := by
  refine keeps_matchOptions.bind fun options _ => leads_ite (fun _ => leads_unexpected_bind _) fun _ => ?_
  exact (passes_amend _).bind fun _ => keeps_pure (List.forall_mem_nil _)

theorem keeps_setterDecl (offset : Nat) :
    Keeps n b (setterDecl offset) fun found => ∀ kind ∈ found, DeclaredInOrder b kind := by
  have hword {α : Type} {first second : Rule × α} {next : α → Parser DeclarationKind}
      (h : ∀ a, Keeps n b (next a) (DeclaredInOrder b)) :
      Keeps n b (eitherWord first second >>= next) (DeclaredInOrder b) := (passes_eitherWord _ _).bind h
  have hvalue {next : String → Parser DeclarationKind} (h : ∀ uri, Keeps n b (next uri) (DeclaredInOrder b)) :
      Keeps n b (capturedString 0 >>= next) (DeclaredInOrder b) := (passes_observe _).bind h
  refine leads_ifEatStay (Keeps.some ?_) (leads_ifEatStay (Keeps.some ?_) (leads_ifEatStay (Keeps.some ?_)
    (leads_ifEatStay (Keeps.some ?_) (leads_ifEatStay (Keeps.some ?_) (leads_ifEatStay (Keeps.some ?_)
    (leads_ifEatStay (keeps_copyNamespacesDecl offset).some
    (leads_ifEatStay (keeps_decimalFormatDecl none offset).some (leads_ifEatStay ?_
    (leads_ifEatStay (keeps_defaultNamespaceDecl _ offset).some
    (leads_ifEatStay (keeps_defaultNamespaceDecl _ offset).some
    (leads_ifEatStay (keeps_namespaceDecl offset).some keeps_none)))))))))))
  · exact hword fun _ => keeps_setting rfl
  · exact hvalue fun _ => keeps_setting rfl
  · exact hvalue fun _ => keeps_setting rfl
  · exact hword fun _ => keeps_setting rfl
  · exact hword fun _ => keeps_setting rfl
  · exact hword fun _ => keeps_setting rfl
  · refine (passes_observe _).bind fun lexical => (passes_plainName lexical offset).bind fun name => ?_
    exact (keeps_decimalFormatDecl (some name) offset).some

/-! ### Components -/

theorem passes_checkLibraryNamespace (name : QName) (what : String) (offset : Nat) :
    Passes (checkLibraryNamespace name what offset) := by
  refine still_get.passes.seq fun s => ?_
  split
  · exact passes_pure _
  · exact passes_ite (passes_record _ _ _) (passes_pure _)

theorem keeps_initialValue : Keeps n b initialValue fun found => ∀ e ∈ found.1, e.InOrder b := by
  refine leads_ifEatStay ?_ (leads_ifEatStay ?_ (leads_unexpected _))
  · refine builds_exprSingle.keeps.bind fun value hvalue => keeps_pure ?_
    rintro _ ⟨⟩
    exact hvalue
  · exact (keeps_whenEats builds_exprSingle.keeps).bind fun value hvalue => keeps_pure hvalue

theorem keeps_variableDecl (annotations : List AnnotationDecl) (offset : Nat) :
    Keeps n b (variableDecl annotations offset) fun decl => DeclaredInOrder b (.variableDecl decl) := by
  refine (passes_expect _).bind fun _ => (passes_observe _).bind fun place => ?_
  refine (passes_observe _).bind fun lexical => (passes_plainName lexical place).bind fun name => ?_
  refine (passes_checkLibraryNamespace name _ place).bind fun _ => passes_declaredType.bind fun type => ?_
  refine keeps_initialValue.bind fun ⟨value, isExternal⟩ hvalue => (passes_amendGet _).bind fun isNew => ?_
  refine leads_ite (fun _ => (passes_record _ _ _).bind fun _ => keeps_pure ?_) fun _ => keeps_pure ?_ <;>
    exact forall_mem_toList.2 hvalue

theorem keeps_contextItemDecl (offset : Nat) : Keeps n b (contextItemDecl offset) (DeclaredInOrder b) := by
  refine passes_declaredType.bind fun type => keeps_initialValue.bind fun ⟨value, isExternal⟩ hvalue => ?_
  refine (passes_claim _ _ offset).bind fun _ => (passes_amend _).bind fun _ => keeps_pure ?_
  exact forall_mem_toList.2 hvalue

theorem keeps_declaredBody (kind : FunctionKind) :
    Keeps n b (declaredBody kind) fun found => ∀ e ∈ found, e.InOrder b := by
  refine leads_ifEatStay keeps_none (leads_expect_bind (by rfl) (leads_start_bind fun place hplace => ?_))
  exact Leads.bind (Leads.keeps (stands_functionBody builds_exprSingle _ hplace)) fun body =>
    leads_of_and fun hbody => keeps_someOf hbody

theorem keeps_functionDecl (annotations : List AnnotationDecl) (kind : FunctionKind) (offset : Nat) :
    Keeps n b (functionDecl annotations kind offset) fun decl => DeclaredInOrder b (.functionDecl decl) := by
  refine (passes_observe _).bind fun place => (passes_observe _).bind fun lexical => ?_
  refine (passes_functionName lexical place).bind fun name => ?_
  extract_lets rest
  have hrest (a : Unit) : Keeps n b (rest a) fun decl => DeclaredInOrder b (.functionDecl decl) := by
    refine (passes_checkLibraryNamespace name _ place).bind fun _ => (passes_expect _).bind fun _ => ?_
    refine passes_paramList.bind fun params => passes_declaredType.bind fun type => ?_
    refine (keeps_declaredBody kind).bind fun body hbody => (passes_amendGet _).bind fun isNew => ?_
    refine leads_ite (fun _ => (passes_record _ _ _).bind fun _ => keeps_pure ?_) fun _ => keeps_pure ?_ <;>
      exact forall_mem_toList.2 hbody
  split
  · exact leads_ite (fun _ => (passes_record _ _ _).bind fun _ => hrest ()) fun _ => hrest ()
  · exact hrest ()

theorem keeps_componentDecl (offset : Nat) :
    Keeps n b (componentDecl offset) fun found => ∀ kind ∈ found, DeclaredInOrder b kind := by
  have hkind : Passes functionKind := (passes_eatFirst _).seq fun _ => passes_pure _
  refine passes_annotationList.bind fun annotations => hkind.bind fun kind => ?_
  refine leads_ifEatStay ?_ (leads_ifEatStay ?_ (leads_ite (fun _ => leads_unexpected_bind _) fun _ => keeps_none))
  · exact (keeps_variableDecl annotations offset).bind fun _ hdecl => keeps_someOf hdecl
  · exact (keeps_functionDecl annotations kind offset).bind fun _ hdecl => keeps_someOf hdecl

/-! ### Imports -/

theorem passes_locationHints : Passes locationHints := by
  refine passes_ifEat ((passes_observe _).seq fun first => ?_) (passes_pure _)
  exact (passes_many (passes_whenEats (passes_observe _))).seq fun _ => passes_pure _

theorem passes_bindImport (qualifier : Option String) (uri : String) (offset : Nat) :
    Passes (bindImport qualifier uri offset) := by
  cases qualifier with
  | none => exact passes_pure _
  | some q =>
    exact (passes_checkBinding q uri offset).seq fun _ => (passes_claimQualifier q offset).seq fun _ =>
      passes_amend _

theorem keeps_schemaImport (offset : Nat) : Keeps n b (schemaImport offset) (DeclaredInOrder b) := by
  refine (passes_whenEats (passes_observe _)).bind fun qualifier => ?_
  have hrest (isDefault : Bool) : Keeps n b (do
      expect Terminal.namespaceUri
      let uri ← capturedString 0
      let locations ← locationHints
      bindImport qualifier uri offset
      if isDefault then
        claim .defaultElementNamespace .duplicateDefaultNamespace offset
        amend (·.bind "" uri)
      if !(← amendGet (·.addSchemaImport uri locations)) then
        record .duplicateSchemaImport offset ("schema '" ++ uri ++ "' is imported more than once")
      return DeclarationKind.schemaImport ⟨qualifier, isDefault, uri, locations⟩) (DeclaredInOrder b) := by
    refine (passes_expect _).bind fun _ => (passes_observe _).bind fun uri => ?_
    refine passes_locationHints.bind fun locations => (passes_bindImport qualifier uri offset).bind fun _ => ?_
    have hend : Keeps n b (do
        if !(← amendGet (·.addSchemaImport uri locations)) then
          record .duplicateSchemaImport offset ("schema '" ++ uri ++ "' is imported more than once")
        return DeclarationKind.schemaImport ⟨qualifier, isDefault, uri, locations⟩) (DeclaredInOrder b) := by
      have hkind : Keeps n b (pure (DeclarationKind.schemaImport ⟨qualifier, isDefault, uri, locations⟩))
          (DeclaredInOrder b) := keeps_pure (List.forall_mem_nil _)
      exact (passes_amendGet _).bind fun isNew =>
        leads_ite (fun _ => (passes_record _ _ _).bind fun _ => hkind) fun _ => hkind
    refine leads_ite (fun _ => ?_) fun _ => hend
    exact (passes_claim _ _ offset).bind fun _ => (passes_amend _).bind fun _ => hend
  exact leads_ite (fun _ => (passes_eat _).bind hrest) fun _ => (passes_pure false).bind hrest

theorem passes_moduleImport (offset : Nat) : Passes (moduleImport offset) := by
  refine (passes_whenEats (passes_observe _)).seq fun qualifier => (passes_expect _).seq fun _ => ?_
  refine (passes_observe _).seq fun uri => passes_locationHints.seq fun locations => ?_
  have hend : Passes (do
      bindImport qualifier uri offset
      let isNew ← amendGet (·.addModuleImport uri locations)
      if !isNew then
        record .duplicateModuleImport offset ("module '" ++ uri ++ "' is imported more than once")
      return (ModuleImport.mk qualifier uri locations, isNew)) := by
    refine (passes_bindImport qualifier uri offset).seq fun _ => (passes_amendGet _).seq fun isNew => ?_
    exact passes_ite ((passes_record _ _ _).seq fun _ => passes_pure _) (passes_pure _)
  exact passes_ite ((passes_record _ _ _).seq fun _ => hend) hend

/-! ### Heads of declarations -/

theorem keeps_declared (offset : Nat) :
    Keeps n b (declared offset) fun found => ∀ d ∈ found, DeclaredInOrder b d.1 := by
  refine (keeps_setterDecl offset).bind ?_
  rintro (_ | kind) hkind
  · refine leads_ifEatStay ?_ (leads_ifEatStay ?_ (leads_ifEatStay ?_ (leads_ifEatStay ?_ ?_)))
    · exact (keeps_optionDecl offset).bind fun _ h => keeps_someOf h
    · exact keeps_ftOptionDecl.bind fun _ h => keeps_someOf h
    · exact (keeps_revalidationDecl offset).bind fun _ h => keeps_someOf h
    · exact (keeps_contextItemDecl offset).bind fun _ h => keeps_someOf h
    · refine (keeps_componentDecl offset).bind ?_
      rintro (_ | kind) hkind
      · exact keeps_none
      · exact keeps_someOf (hkind kind rfl)
  · exact keeps_someOf (hkind kind rfl)

theorem keeps_declarationHead :
    Keeps n b declarationHead fun found => ∀ head ∈ found, DeclaredInOrder b head.decl.kind := by
  refine leads_mark_bind fun place hplace => leads_ifEatStay ?_ (leads_ifEatStay ?_ ?_)
  · exact (passes_observe _).bind fun offset => (keeps_schemaImport offset).bind fun _ h => keeps_someOf h
  · refine (passes_observe _).bind fun offset => (passes_moduleImport offset).bind fun _ => ?_
    exact keeps_someOf (List.forall_mem_nil _)
  refine (passes_eatFirst _).bind fun _ => leads_ite (fun _ => keeps_none) fun _ => ?_
  refine (passes_observe _).bind fun offset => (keeps_declared offset).bind ?_
  rintro (_ | ⟨kind, part⟩) hkind
  · exact (leads_restore hplace).bind fun _ => keeps_none
  · exact keeps_someOf (hkind _ rfl)

end XQuerySyntax.Order

/-! ### Modules

Whole trees in order. Whatever is imported, a node of a parsed tree is in front of all that is inside
it unless it begins with the operand of an operator. -/

namespace XQuerySyntax

namespace Order

open XQuerySyntax.Parser XQuerySyntax.Grammar

variable {σ α β : Type} {n b : Nat} {good : α → Prop} {better : β → Prop}

/-- The same of parsers of modules, whatever the importer does. -/
abbrev ModuleKeeps (n b : Nat) (p : ModuleParser σ α) (good : α → Prop) : Prop :=
  Contract (fun s => s.1.scan.Behind n b) p (fun a s => good a ∧ s.1.scan.Behind n b) fun _ _ => True

theorem moduleKeeps_lift {p : Parser α} (h : Keeps n b p good) :
    ModuleKeeps n b (lift p : ModuleParser σ α) good := contract_lift h

theorem ModuleKeeps.bind {p : ModuleParser σ α} {next : α → ModuleParser σ β} (h : ModuleKeeps n b p good)
    (hn : ∀ a, good a → ModuleKeeps n b (next a) better) : ModuleKeeps n b (p >>= next) better :=
  Contract.bind h fun a s hs => hn a hs.1 s hs.2

theorem moduleKeeps_lift_bind {p : Parser α} {next : α → ModuleParser σ β} (h : Passes p)
    (hn : ∀ a, ModuleKeeps n b (next a) better) : ModuleKeeps n b (lift p >>= next) better :=
  Contract.bind (contract_lift (h n b)) hn

theorem moduleKeeps_pure {a : α} (h : good a) : ModuleKeeps n b (pure a : ModuleParser σ α) good :=
  fun _ hs => ⟨h, hs⟩

theorem moduleKeeps_get_bind {next : ParserState × σ → ModuleParser σ β}
    (h : ∀ s, ModuleKeeps n b (next s) better) : ModuleKeeps n b (get >>= next) better :=
  fun s hs => h s s hs

/-! ### Imports -/

theorem passes_importFailed (error : ImportError) (offset : Nat) : Passes (importFailed error offset) := by
  cases error with
  | cycle chain => exact fun _ _ => leads_fatal _ _ _
  | unreadable location reason => exact passes_record _ _ _
  | broken location e => exact fun _ _ => leads_fatal _ _ _
  | tooDeep limit => exact passes_record _ _ _

theorem passes_takeOver (loaded : ParsedModule) (location uri : String) (offset : Nat) :
    Passes (takeOver loaded location uri offset) := by
  refine passes_ite ((passes_record _ _ _).seq fun _ => passes_pure _) ?_
  refine (passes_amendGet _).seq fun clashes => ?_
  exact (still_forIn (fun name => still_record _ _ _) clashes).passes.seq fun _ => passes_pure _

theorem moduleKeeps_loadFrom (importer : Importer σ) (uri location : String) (offset : Nat) :
    ModuleKeeps n b (loadFrom importer uri offset location) fun _ => True := by
  rintro ⟨s, imports⟩ hs
  unfold loadFrom
  dsimp only
  match importer.load location imports with
  | (.ok loaded, imports') =>
    exact moduleKeeps_lift ((passes_takeOver loaded location uri offset).keeps fun _ => trivial)
      (s, imports') hs
  | (.error error, imports') =>
    exact moduleKeeps_lift ((passes_importFailed error offset).keeps fun _ => trivial) (s, imports') hs

theorem moduleKeeps_loadImport (importer : Option (Importer σ)) (library : ModuleImport) (offset : Nat) :
    ModuleKeeps n b (loadImport importer library offset) fun _ => True := by
  cases importer with
  | none => exact moduleKeeps_pure trivial
  | some importer =>
    have hload (locations : List String) : ModuleKeeps n b (do
        for location in locations do
          loadFrom importer library.targetNamespace offset location : ModuleParser σ Unit) fun _ => True := by
      have hone (location : String) :
          Contract (fun s : ParserState × σ => s.1.scan.Behind n b)
            (loadFrom importer library.targetNamespace offset location) (fun _ s => s.1.scan.Behind n b)
            fun _ _ => True :=
        Contract.weaken (moduleKeeps_loadFrom importer _ location offset) (fun _ hs => hs) fun _ _ hs => hs.2
      exact Contract.bind (Contract.forIn hone locations) fun _ => moduleKeeps_pure trivial
    refine moduleKeeps_get_bind fun ⟨s, imports⟩ => Contract.ite (fun _ => ?_) fun _ => hload _
    exact moduleKeeps_lift_bind (passes_record _ _ _) fun _ => hload _

/-! ### Prologs -/

/-- Declarations whose expressions are behind a place and in order. -/
abbrev DeclarationsInOrder (b : Nat) (ds : List Declaration) : Prop := ∀ d ∈ ds, DeclaredInOrder b d.kind

theorem moduleKeeps_declarationsWithin (importer : Option (Importer σ)) (steps : Nat) (part : Section) :
    ModuleKeeps n b (declarationsWithin importer steps part) (DeclarationsInOrder b) := by
  induction steps generalizing part with
  | zero => exact moduleKeeps_lift leads_exhausted
  | succ steps ih =>
    refine (moduleKeeps_lift keeps_declarationHead).bind ?_
    rintro (_ | head) hhead
    · exact moduleKeeps_pure (List.forall_mem_nil _)
    dsimp -zeta only
    extract_lets further rest
    have hfurther (a : Unit) : ModuleKeeps n b (further a) (DeclarationsInOrder b) :=
      (ih _).bind fun ds hds => moduleKeeps_pure (List.forall_mem_cons.2 ⟨hhead head rfl, hds⟩)
    have hrest (a : Unit) : ModuleKeeps n b (rest a) (DeclarationsInOrder b) := by
      refine moduleKeeps_lift_bind (passes_expect _) fun _ => Contract.ite (fun _ => ?_) fun _ => hfurther ()
      exact moduleKeeps_lift_bind (passes_record _ _ _) fun _ => hfurther ()
    split
    · exact (moduleKeeps_loadImport importer _ _).bind fun _ _ => hrest ()
    · exact hrest ()

theorem moduleKeeps_prolog (importer : Option (Importer σ)) (version : Option VersionDecl) :
    ModuleKeeps n b (prolog importer version) fun p => DeclarationsInOrder b p.declarations :=
  moduleKeeps_get_bind fun ⟨_, _⟩ => (moduleKeeps_declarationsWithin importer _ _).bind fun _ hds =>
    moduleKeeps_pure hds

/-! ### Modules -/

theorem passes_checkVersion (decl : VersionDecl) : Passes (checkVersion decl) := by
  unfold checkVersion
  extract_lets finish checkEncoding
  have hfinish (a : Unit) : Passes (finish a) := (passes_expect _).seq fun _ => passes_pure _
  have hencoding (a : Unit) : Passes (checkEncoding a) := by
    dsimp only [checkEncoding]
    split
    · exact passes_ite ((still_note _).passes.seq fun _ => hfinish ())
        ((passes_record _ _ _).seq fun _ => hfinish ())
    · exact hfinish ()
  split
  · exact passes_ite ((passes_record _ _ _).seq fun _ => hencoding ()) (hencoding ())
  · exact hencoding ()

theorem passes_versionDecl : Passes versionDecl := by
  refine passes_ifEat ?_ (passes_ifEat ?_ (passes_pure _))
  · refine (passes_observe _).seq fun offset => (passes_observe _).seq fun version => ?_
    refine (passes_whenEats (passes_observe _)).seq fun encoding => ?_
    exact (passes_checkVersion _).seq fun _ => passes_pure _
  · refine (passes_observe _).seq fun offset => (passes_observe _).seq fun encoding => ?_
    exact (passes_checkVersion _).seq fun _ => passes_pure _

theorem passes_expectEnd : Passes expectEnd :=
  passes_atEnd.seq fun _ => passes_ite (passes_unexpected _) (passes_pure _)

theorem moduleKeeps_mainModule (importer : Option (Importer σ)) (version : Option VersionDecl) :
    ModuleKeeps n b (mainModule importer version) fun m => InOrderAll b m.exprs := by
  refine (moduleKeeps_prolog importer version).bind fun p hp => ?_
  refine (moduleKeeps_lift (builds_queryBody builds_exprSingle).keeps).bind fun body hbody => ?_
  refine moduleKeeps_lift_bind passes_expectEnd fun _ => moduleKeeps_pure ?_
  refine List.forall_mem_append.2 ⟨?_, forall_mem_toList.2 fun _ => ?_⟩
  · exact List.forall_mem_flatMap.2 (List.forall_mem_map.2 hp)
  · rintro ⟨⟩
    exact hbody

theorem passes_libraryHeader (hasLocation : Bool) : Passes (libraryHeader hasLocation) := by
  refine (passes_expect _).seq fun _ => (passes_observe _).seq fun offset => (passes_expect _).seq fun _ => ?_
  refine (passes_observe _).seq fun qualifier => (passes_observe _).seq fun uri => ?_
  extract_lets rest
  have hrest (a : Unit) : Passes (rest a) := by
    refine (passes_checkBinding qualifier uri offset).seq fun _ => (passes_amend _).seq fun _ => ?_
    have hname : Passes (modify fun s => { s with
        declaredPrefixes := qualifier :: s.declaredPrefixes
        module := if !hasLocation && uri != "" then ⟨uri⟩ else s.module
        libraryNamespace := some uri }) := (still_modify fun _ => rfl).passes
    exact hname.seq fun _ => (passes_expect _).seq fun _ => passes_pure _
  exact passes_ite ((passes_record _ _ _).seq fun _ => hrest ()) (hrest ())

theorem moduleKeeps_libraryModule (importer : Option (Importer σ)) (hasLocation : Bool)
    (version : Option VersionDecl) :
    ModuleKeeps n b (libraryModule importer hasLocation version) fun m => InOrderAll b m.exprs := by
  refine moduleKeeps_lift_bind (passes_libraryHeader hasLocation) fun ⟨qualifier, uri⟩ => ?_
  refine (moduleKeeps_prolog importer version).bind fun p hp => ?_
  refine moduleKeeps_lift_bind passes_expectEnd fun _ => moduleKeeps_pure ?_
  refine List.forall_mem_append.2 ⟨List.forall_mem_flatMap.2 (List.forall_mem_map.2 hp), ?_⟩
  exact List.forall_mem_nil _

theorem moduleKeeps_moduleUnit (importer : Option (Importer σ)) (kind : Option ModuleKind)
    (hasLocation : Bool) :
    ModuleKeeps n b (moduleUnit importer kind hasLocation) fun m => InOrderAll b m.exprs := by
  refine moduleKeeps_lift_bind passes_versionDecl fun version => ?_
  refine moduleKeeps_lift_bind (passes_peek _) fun isLibrary => ?_
  have hlibrary : ModuleKeeps n b (libraryModule importer hasLocation version) fun m => InOrderAll b m.exprs :=
    moduleKeeps_libraryModule importer hasLocation version
  have hmain : ModuleKeeps n b (mainModule importer version) fun m => InOrderAll b m.exprs :=
    moduleKeeps_mainModule importer version
  rcases kind with _ | _ | _ <;> cases isLibrary
  · exact hmain
  · exact hlibrary
  · exact hmain
  · exact moduleKeeps_lift ((passes_observe _).bind fun offset => leads_fatal _ _ _)
  · exact hlibrary
  · exact hlibrary

theorem keeps_expressionUnit : Keeps n b expressionUnit (Expr.InOrder b) :=
  (builds_expr builds_exprSingle).keeps.bind fun _ he => passes_expectEnd.bind fun _ => keeps_pure he

/-- At its beginning a text is behind nothing. -/
theorem behind_ofText (text : String) (config : Config) :
    (ParserState.ofText text config).scan.Behind (byteLength text.toList) 0 :=
  ⟨rfl, by rw [Nat.zero_add]; exact byteLength_le_of_suffix (List.dropWhile_suffix _)⟩

end Order

open XQuerySyntax.Order Grammar

/-- Whatever is parsed and imported: a node of the tree is in front of all that is inside it, nodes and
constants of match options, just if it does not begin with the operand of an operator. -/
theorem nodes_precede_their_parts (text : String) (config : Config) :
    (∀ e, parseExpression text config = .ok e →
      ∀ n ∈ e.nodes, n.beginsWithOperand = false ↔ ∀ place ∈ n.starts, n.offset ≤ place) ∧
    (∀ (σ : Type) (importer : Option (Importer σ)) kind imports m,
      (parseModuleWith importer kind text config imports).1 = .ok m →
      ∀ n ∈ m.module.nodes, n.beginsWithOperand = false ↔ ∀ place ∈ n.starts, n.offset ≤ place) := by
  refine ⟨fun e h => ?_, fun σ importer kind imports m h => ?_⟩
  · have hends := keeps_expressionUnit _ (behind_ofText text config)
    unfold parseExpression at h
    cases hr : expressionUnit (.ofText text config) <;> rw [hr] at h hends <;> cases h
    exact hends.1.nodes
  · have hends := moduleKeeps_moduleUnit importer kind config.sourceUri.isSome
      (.ofText text config, imports) (behind_ofText text config)
    unfold parseModuleWith at h
    cases hr : moduleUnit importer kind config.sourceUri.isSome (.ofText text config, imports) <;>
      rw [hr] at h hends <;> cases h
    refine List.forall_mem_flatMap.2 fun e he => ?_
    exact (hends.1 e he).nodes

/-- A query in front of the sum in it, and a filter in a declaration in front of its parts. -/
theorem query_and_filter_precede_their_parts :
    (∃ e, parseExpression "for $x in 1 + 2 return $x" .standard = .ok e ∧
      e.nodes.map Expr.beginsWithOperand = [false, true, false, false, false] ∧
      ∀ place ∈ e.starts, e.offset ≤ place) ∧
    ∃ m, parseMainModule "declare variable $v := ($y, 2)[1 + 2]; $v" .standard = .ok m ∧
      m.module.nodes.map Expr.beginsWithOperand = [false, false, false, false, true, false, false, false] ∧
      ∀ n ∈ m.module.nodes, n.beginsWithOperand = false → ∀ place ∈ n.starts, n.offset ≤ place := by
  have hruns : (parseExpression "for $x in 1 + 2 return $x" .standard).toOption.any (fun e =>
        !e.beginsWithOperand && e.nodes.map Expr.beginsWithOperand == [false, true, false, false, false]) ∧
      (parseMainModule "declare variable $v := ($y, 2)[1 + 2]; $v" .standard).toOption.any (fun m =>
        m.module.nodes.map Expr.beginsWithOperand ==
          [false, false, false, false, true, false, false, false]) := by
    rw [parseMainModule, parseModule_eq, String.toList_ofList]
    decide +kernel
  constructor
  · obtain ⟨e, he, htest⟩ := exists_ok_of_any _ hruns.1
    obtain ⟨hplain, hnodes⟩ := Bool.and_eq_true_iff.1 htest
    have hself : e ∈ e.nodes := Expr.mem_nodes.2 (.inl rfl)
    have hfront := (nodes_precede_their_parts _ _).1 e he e hself
    exact ⟨e, he, beq_iff_eq.1 hnodes, hfront.1 (by simpa using hplain)⟩
  · obtain ⟨m, hm, hnodes⟩ := exists_ok_of_any _ hruns.2
    refine ⟨m, hm, beq_iff_eq.1 hnodes, fun n hn => ?_⟩
    exact ((nodes_precede_their_parts _ _).2 Unit none _ () m ((fst_parseModuleWith _ _ _).trans hm) n hn).1

/-- A sequence stands at the operator of the sum that it begins with, behind the first operand. -/
theorem sequence_stands_behind_its_first_operand :
    ∃ e n, parseExpression "1 + 2, 3" .standard = .ok e ∧ e.kind.standsAtOperator = false ∧
      n ∈ e.nodes ∧ n.offset < e.offset := by
  obtain ⟨e, he, htest⟩ := exists_ok_of_any (r := parseExpression "1 + 2, 3" .standard)
    (fun e => !e.kind.standsAtOperator && e.nodes.any fun n => n.offset < e.offset) (by decide +kernel)
  obtain ⟨hkind, hany⟩ := Bool.and_eq_true_iff.1 htest
  obtain ⟨n, hn, hoffset⟩ := List.any_eq_true.1 hany
  exact ⟨e, n, he, by simpa using hkind, hn, of_decide_eq_true hoffset⟩

end XQuerySyntax
