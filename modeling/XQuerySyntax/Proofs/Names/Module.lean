import XQuerySyntax.Proofs.Tree.Parse
import XQuerySyntax.Proofs.Names.Expr

/-! Accounts of declarations. The names that a declaration is written with are reported while it is read;
where the word that opens a declaration turns out to be a name, nothing has been reported. -/

namespace XQuerySyntax

/-- What a declaration holds. -/
abbrev Stock.declaration : DeclarationKind → Stock := .both DeclarationKind.unbound DeclarationKind.exprs

namespace Grammar

open XQuerySyntax.Parser

attribute [local simp] DeclarationKind.unbound DeclarationKind.exprs

/-! ### Settings -/

theorem quiet_claim (s : Setter) {code : ErrorCode} (h : code ≠ .unknownPrefix) (offset : Nat) :
    Quiet (claim s code offset) :=
  (quiet_amendGet _).seq fun _ => quiet_ite (quiet_record h _ _) (quiet_pure _)

theorem quiet_claimQualifier (qualifier : String) (offset : Nat) :
    Quiet (claimQualifier qualifier offset) :=
  quiet_get.seq fun _ => quiet_ite (quiet_record (by decide) _ _) (quiet_modify fun _ => rfl)

theorem quiet_eitherWord {α : Type} (first second : Rule × α) : Quiet (eitherWord first second) :=
  fun t => carries_ifEat (quiet_pure _ t) ((quiet_expect _).bind fun _ => quiet_pure _ t)

/-- A setting without names that is claimed and then put into the static context. -/
theorem accounts_setting {setter : Setter} {code : ErrorCode} {offset : Nat}
    {f : StaticContext → StaticContext} {kind : DeclarationKind} (hcode : code ≠ .unknownPrefix)
    (hk : Stock.declaration kind = .empty) : Accounts (do
      claim setter code offset
      amend f
      return kind) .declaration := by
  refine fun t => (quiet_claim setter hcode offset).bind fun _ => (quiet_amend f).bind fun _ => ?_
  refine carries_pure ?_ ?_ <;> rw [hk, Stock.append_empty]

theorem accounts_copyNamespacesDecl (offset : Nat) :
    Accounts (copyNamespacesDecl offset) .declaration := by
  refine fun t => (quiet_eitherWord _ _).bind fun preserve => (quiet_expect _).bind fun _ => ?_
  exact (quiet_eitherWord _ _).bind fun inherit => accounts_setting (by decide) rfl t

theorem accounts_revalidationDecl (offset : Nat) : Accounts (revalidationDecl offset) .declaration := by
  refine fun t => carries_ifEat ?_ ?_
  · exact accounts_setting (by decide) rfl t
  · exact (quiet_eitherWord _ _).bind fun _ => accounts_setting (by decide) rfl t

theorem quiet_addFormatProperty (format : DecimalFormat) : Quiet (addFormatProperty format) := by
  refine (quiet_eat _).seq fun _ => quiet_ite (quiet_pure _) ?_
  refine (quiet_observe _).seq fun offset => (quiet_observe _).seq fun name => ?_
  refine (quiet_observe _).seq fun value => ?_
  dsimp only
  split
  · exact fun t => carries_fatal _ _ _
  · refine quiet_ite ((quiet_record (by decide) _ _).seq fun _ => quiet_pure _) ?_
    exact quiet_ite ((quiet_record (by decide) _ _).seq fun _ => quiet_pure _) (quiet_pure _)

/-- The name of a decimal format is in hand already. -/
theorem carries_decimalFormatDecl (t : Stock) (name : Option QName) (offset : Nat) :
    Carries (t ++ .maybe (.naming QName.unbound) name) (decimalFormatDecl name offset) fun kind =>
      t ++ .declaration kind := by
  refine (quiet_iterate quiet_addFormatProperty _).bind fun format => (quiet_amendGet _).bind fun isNew => ?_
  have hend : Carries (t ++ .maybe (.naming QName.unbound) name)
      (pure (DeclarationKind.decimalFormat name format)) fun kind => t ++ .declaration kind := by
    refine carries_pure ?_ ?_
    · simp
    · simp
  exact carries_ite (fun _ => (quiet_record (by decide) _ _).bind fun _ => hend) fun _ => hend

theorem accounts_defaultNamespaceDecl (kind : DefaultNamespaceKind) (offset : Nat) :
    Accounts (defaultNamespaceDecl kind offset) .declaration := by
  refine fun t => (quiet_observe _).bind fun uri => (quiet_claim _ (by decide) offset).bind fun _ => ?_
  refine (quiet_checkDefaultNamespace uri offset).bind fun _ => ?_
  cases kind with
  | element =>
    refine (quiet_amend _).bind fun _ => carries_pure ?_ ?_ <;>
      simp
  | function =>
    refine (quiet_amend _).bind fun _ => carries_pure ?_ ?_ <;>
      simp

theorem accounts_namespaceDecl (offset : Nat) : Accounts (namespaceDecl offset) .declaration := by
  refine fun t => (quiet_expect _).bind fun _ => (quiet_observe _).bind fun qualifier => ?_
  refine (quiet_observe _).bind fun uri => (quiet_checkBinding qualifier uri offset).bind fun _ => ?_
  refine (quiet_claimQualifier qualifier offset).bind fun _ => (quiet_amend _).bind fun _ => ?_
  refine carries_pure ?_ ?_
  · simp
  · simp

theorem accounts_optionDecl (offset : Nat) : Accounts (optionDecl offset) .declaration := by
  refine fun t => (quiet_observe _).bind fun lexical => (quiet_observe _).bind fun value => ?_
  refine (accounts_plainName lexical offset).bind fun name => (quiet_amend _).bind fun _ => ?_
  refine carries_pure ?_ ?_
  · simp
  · simp

theorem accounts_ftOptionDecl : Accounts ftOptionDecl .declaration := by
  refine fun t => accounts_matchOptions.bind fun options => ?_
  refine carries_ite (fun _ => carries_unexpected_bind _) fun _ => (quiet_amend _).bind fun _ => ?_
  refine carries_pure ?_ ?_
  · simp
  · simp

theorem accounts_setterDecl (offset : Nat) : Accounts (setterDecl offset) (.maybe .declaration) := by
  intro t
  have hword {α : Type} {first second : Rule × α} {next : α → Parser DeclarationKind}
      (h : ∀ a, Accounts (next a) .declaration) :
      Accounts (eitherWord first second >>= next) .declaration :=
    fun t => (quiet_eitherWord _ _).bind fun a => h a t
  have hvalue {next : String → Parser DeclarationKind} (h : ∀ uri, Accounts (next uri) .declaration) :
      Accounts (capturedString 0 >>= next) .declaration :=
    fun t => (quiet_observe _).bind fun uri => h uri t
  refine carries_ifEat (Accounts.some ?_ t) (carries_ifEat (Accounts.some ?_ t)
    (carries_ifEat (Accounts.some ?_ t) (carries_ifEat (Accounts.some ?_ t)
    (carries_ifEat (Accounts.some ?_ t) (carries_ifEat (Accounts.some ?_ t)
    (carries_ifEat ((accounts_copyNamespacesDecl offset).some t)
    (carries_ifEat ?_ (carries_ifEat ?_ (carries_ifEat ((accounts_defaultNamespaceDecl _ offset).some t)
    (carries_ifEat ((accounts_defaultNamespaceDecl _ offset).some t)
    (carries_ifEat ((accounts_namespaceDecl offset).some t) (accounts_none t))))))))))))
  · exact hword fun _ => accounts_setting (by decide) rfl
  · exact hvalue fun _ => accounts_setting (by decide) rfl
  · exact hvalue fun _ => accounts_setting (by decide) rfl
  · exact hword fun _ => accounts_setting (by decide) rfl
  · exact hword fun _ => accounts_setting (by decide) rfl
  · exact hword fun _ => accounts_setting (by decide) rfl
  · have hdefault := (carries_decimalFormatDecl t none offset).of_eq (t := t) (by simp) (by simp)
    exact Contract.bind hdefault fun _ => carries_pure rfl rfl
  · refine (quiet_observe _).bind fun lexical => (accounts_plainName lexical offset).bind fun name => ?_
    exact Contract.bind (carries_decimalFormatDecl t (some name) offset) fun _ => carries_pure rfl rfl

/-! ### Components -/

theorem quiet_checkLibraryNamespace (name : QName) (what : String) (offset : Nat) :
    Quiet (checkLibraryNamespace name what offset) := by
  refine quiet_get.seq fun s => ?_
  split
  · exact quiet_pure _
  · exact quiet_ite (quiet_record (by decide) _ _) (quiet_pure _)

theorem accounts_initialValue : Accounts initialValue fun found => .maybe .one found.1 := by
  refine fun t => carries_ifEat ?_ (carries_ifEat ?_ (carries_unexpected _))
  · exact accounts_exprSingle.bind fun value => carries_pure rfl rfl
  · exact (accounts_whenEats accounts_exprSingle).bind fun value => carries_pure rfl rfl

/-- The annotations are in hand already. -/
theorem carries_variableDecl (t : Stock) (annotations : List AnnotationDecl) (offset : Nat) :
    Carries (t ++ .all (.naming AnnotationDecl.unbound) annotations) (variableDecl annotations offset)
      fun decl => t ++ .declaration (.variableDecl decl) := by
  refine (quiet_expect _).bind fun _ => (quiet_observe _).bind fun place => ?_
  refine (quiet_observe _).bind fun lexical => (accounts_plainName lexical place).bind fun name => ?_
  refine (quiet_checkLibraryNamespace name _ place).bind fun _ => accounts_declaredType.bind fun type => ?_
  refine accounts_initialValue.bind fun ⟨value, isExternal⟩ => (quiet_amendGet _).bind fun isNew => ?_
  refine carries_ite (fun _ => (quiet_record (by decide) _ _).bind fun _ => carries_pure ?_ ?_) fun _ =>
    carries_pure ?_ ?_ <;> simp

theorem accounts_contextItemDecl (offset : Nat) : Accounts (contextItemDecl offset) .declaration := by
  refine fun t => accounts_declaredType.bind fun type => ?_
  refine accounts_initialValue.bind fun ⟨value, isExternal⟩ => ?_
  refine (quiet_claim _ (by decide) offset).bind fun _ => (quiet_amend _).bind fun _ => ?_
  refine carries_pure ?_ ?_ <;> simp

theorem accounts_declaredBody (kind : FunctionKind) : BuildsOptional (declaredBody kind) := by
  refine fun t => carries_ifEat (accounts_none t) ((quiet_expect _).bind fun _ => ?_)
  exact (quiet_observe _).bind fun place => (accounts_functionBody accounts_exprSingle _ place).some t

theorem carries_functionDecl (t : Stock) (annotations : List AnnotationDecl) (kind : FunctionKind)
    (offset : Nat) :
    Carries (t ++ .all (.naming AnnotationDecl.unbound) annotations) (functionDecl annotations kind offset)
      fun decl => t ++ .declaration (.functionDecl decl) := by
  refine (quiet_observe _).bind fun place => (quiet_observe _).bind fun lexical => ?_
  refine (accounts_functionName lexical place).bind fun name => ?_
  extract_lets rest
  have hrest (a : Unit) :
      Carries (t ++ .all (.naming AnnotationDecl.unbound) annotations ++ .naming QName.unbound name)
        (rest a) fun decl => t ++ .declaration (.functionDecl decl) := by
    refine (quiet_checkLibraryNamespace name _ place).bind fun _ => (quiet_expect _).bind fun _ => ?_
    refine accounts_paramList.bind fun params => accounts_declaredType.bind fun type => ?_
    refine (accounts_declaredBody kind).bind fun body => (quiet_amendGet _).bind fun isNew => ?_
    refine carries_ite (fun _ => (quiet_record (by decide) _ _).bind fun _ => carries_pure ?_ ?_) fun _ =>
      carries_pure ?_ ?_ <;> simp
  split
  · exact carries_ite (fun _ => (quiet_record (by decide) _ _).bind fun _ => hrest ()) fun _ => hrest ()
  · exact hrest ()

theorem accounts_componentDecl (offset : Nat) :
    Accounts (componentDecl offset) (.maybe .declaration) := by
  refine fun t => accounts_annotationList.bind fun annotations => ?_
  refine ((quiet_eatFirst _).seq fun _ => quiet_pure _).bind fun kind => carries_ifEat ?_ (carries_ifEat ?_ ?_)
  · exact Contract.bind (carries_variableDecl t annotations offset) fun _ => carries_pure rfl rfl
  · exact Contract.bind (carries_functionDecl t annotations kind offset) fun _ => carries_pure rfl rfl
  · refine carries_ite (fun _ => carries_unexpected_bind _) fun h => ?_
    -- Nothing is dropped here: had there been annotations, a component would have had to follow.
    simp only [Bool.or_eq_true, Bool.not_eq_true', not_or, Bool.not_eq_false] at h
    rw [List.isEmpty_iff.1 h.1]
    exact carries_pure rfl rfl

/-! ### Imports -/

theorem quiet_locationHints : Quiet locationHints := by
  refine fun t => carries_ifEat ((quiet_observe _).bind fun first => ?_) (quiet_pure _ t)
  exact (quiet_many (quiet_whenEats (quiet_observe _))).bind fun _ => quiet_pure _ t

theorem quiet_bindImport (qualifier : Option String) (uri : String) (offset : Nat) :
    Quiet (bindImport qualifier uri offset) := by
  cases qualifier with
  | none => exact quiet_pure _
  | some q =>
    exact (quiet_checkBinding q uri offset).seq fun _ => (quiet_claimQualifier q offset).seq fun _ =>
      quiet_amend _

theorem accounts_schemaImport (offset : Nat) : Accounts (schemaImport offset) .declaration := by
  refine fun t => (quiet_whenEats (quiet_observe _)).bind fun qualifier => ?_
  have hrest (isDefault : Bool) : Carries t (do
      expect Terminal.namespaceUri
      let uri ← capturedString 0
      let locations ← locationHints
      bindImport qualifier uri offset
      if isDefault then
        claim .defaultElementNamespace .duplicateDefaultNamespace offset
        amend (·.bind "" uri)
      if !(← amendGet (·.addSchemaImport uri locations)) then
        record .duplicateSchemaImport offset ("schema '" ++ uri ++ "' is imported more than once")
      return DeclarationKind.schemaImport ⟨qualifier, isDefault, uri, locations⟩) fun kind =>
        t ++ .declaration kind := by
    refine (quiet_expect _).bind fun _ => (quiet_observe _).bind fun uri => ?_
    refine quiet_locationHints.bind fun locations => (quiet_bindImport qualifier uri offset).bind fun _ => ?_
    have hend : Carries t (do
        if !(← amendGet (·.addSchemaImport uri locations)) then
          record .duplicateSchemaImport offset ("schema '" ++ uri ++ "' is imported more than once")
        return DeclarationKind.schemaImport ⟨qualifier, isDefault, uri, locations⟩) fun kind =>
          t ++ .declaration kind := by
      refine (quiet_amendGet _).bind fun isNew => ?_
      refine carries_ite (fun _ => (quiet_record (by decide) _ _).bind fun _ => carries_pure ?_ ?_) fun _ =>
        carries_pure ?_ ?_ <;> simp
    refine carries_ite (fun _ => ?_) fun _ => hend
    exact (quiet_claim _ (by decide) offset).bind fun _ => (quiet_amend _).bind fun _ => hend
  refine carries_ite (fun _ => ?_) fun _ => ?_
  · exact (quiet_eat _).bind hrest
  · exact (quiet_pure false).bind hrest

theorem quiet_moduleImport (offset : Nat) : Quiet (moduleImport offset) := by
  refine (quiet_whenEats (quiet_observe _)).seq fun qualifier => (quiet_expect _).seq fun _ => ?_
  refine (quiet_observe _).seq fun uri => quiet_locationHints.seq fun locations => ?_
  have hend : Quiet (do
      bindImport qualifier uri offset
      let isNew ← amendGet (·.addModuleImport uri locations)
      if !isNew then
        record .duplicateModuleImport offset ("module '" ++ uri ++ "' is imported more than once")
      return (ModuleImport.mk qualifier uri locations, isNew)) := by
    refine (quiet_bindImport qualifier uri offset).seq fun _ => (quiet_amendGet _).seq fun isNew => ?_
    exact quiet_ite ((quiet_record (by decide) _ _).seq fun _ => quiet_pure _) (quiet_pure _)
  exact quiet_ite ((quiet_record (by decide) _ _).seq fun _ => hend) hend

/-! ### Heads of declarations -/

theorem accounts_declared (offset : Nat) :
    Accounts (declared offset) (.maybe fun found => .declaration found.1) := by
  refine fun t => (accounts_setterDecl offset).bind ?_
  rintro (_ | kind)
  · rw [Stock.maybe_none, Stock.append_empty]
    refine carries_ifEat ?_ (carries_ifEat ?_ (carries_ifEat ?_ (carries_ifEat ?_ ?_)))
    · exact (accounts_optionDecl offset).bind fun _ => carries_pure rfl rfl
    · exact accounts_ftOptionDecl.bind fun _ => carries_pure rfl rfl
    · exact (accounts_revalidationDecl offset).bind fun _ => carries_pure rfl rfl
    · exact (accounts_contextItemDecl offset).bind fun _ => carries_pure rfl rfl
    · refine (accounts_componentDecl offset).bind ?_
      rintro (_ | kind) <;> exact carries_pure rfl rfl
  · exact carries_pure rfl rfl

/-- If a body begins with the word that opens declarations, nothing has been reported. -/
theorem accounts_declarationHead :
    Accounts declarationHead (.maybe fun head => .declaration head.decl.kind) := by
  refine fun t => (quiet_observe _).bind fun place => carries_ifEat ?_ (carries_ifEat ?_ ?_)
  · refine (quiet_observe _).bind fun offset => ?_
    exact (accounts_schemaImport offset).bind fun _ => carries_pure rfl rfl
  · refine (quiet_observe _).bind fun offset => (quiet_moduleImport offset).bind fun _ => ?_
    exact carries_pure (by simp) (by simp)
  refine (quiet_eatFirst _).bind fun _ => carries_ite (fun _ => accounts_none t) fun _ => ?_
  refine (quiet_observe _).bind fun offset => (accounts_declared offset).bind ?_
  rintro (_ | ⟨kind, part⟩)
  · exact (quiet_restore place).bind fun _ => carries_pure rfl rfl
  · exact carries_pure rfl rfl

end Grammar

end XQuerySyntax

/-! ### Modules

Unbound names of whole modules. Whatever is imported, a module is parsed with one report for each of
its unbound names, and with no other reports of such names unless an expression of an attribute that
binds a namespace has been dropped. -/

namespace XQuerySyntax

/-- What a module holds. -/
abbrev Stock.module : Module → Stock := .both (fun m => m.declared.flatMap DeclarationKind.unbound) Module.exprs

theorem Stock.unbound_module (m : Module) : (Stock.module m).unbound = m.unbound := by
  simp only [Stock.unbound, Stock.names_both, Stock.exprs_both, Module.unbound, Module.nodes,
    List.flatMap_assoc]
  rfl

namespace Grammar

open XQuerySyntax.Parser

variable {σ α β : Type} {t : Stock} {u : α → Stock} {v : β → Stock}

/-- The same of parsers of modules, whatever the importer does. -/
abbrev ModuleCarries (t : Stock) (p : ModuleParser σ α) (u : α → Stock) : Prop :=
  Contract (fun s => s.1.Reports t) p (fun a s => s.1.Reports (u a)) fun _ _ => True

theorem moduleCarries_lift {p : Parser α} (h : Carries t p u) :
    ModuleCarries t (lift p : ModuleParser σ α) u := contract_lift h

theorem moduleCarries_lift_bind {p : Parser α} {next : α → ModuleParser σ β} (h : Quiet p)
    (hn : ∀ a, ModuleCarries t (next a) v) : ModuleCarries t (lift p >>= next) v :=
  (moduleCarries_lift (h t)).bind hn

theorem moduleCarries_pure {a : α} (hn : t.names = (u a).names) (he : t.exprs = (u a).exprs) :
    ModuleCarries t (pure a : ModuleParser σ α) u := by
  intro s hs
  rw [Stock.eq_of hn he] at hs
  exact hs

theorem moduleCarries_get : ModuleCarries t (get : ModuleParser σ (ParserState × σ)) fun _ => t :=
  fun _ hs => hs

/-! ### Imports -/

theorem quiet_importFailed {error : ImportError} (offset : Nat) : Quiet (importFailed error offset) := by
  cases error with
  | cycle chain => exact fun _ => carries_fatal _ _ _
  | unreadable location reason => exact quiet_record (by decide) _ _
  | broken location e => exact fun _ => carries_fatal _ _ _
  | tooDeep limit => exact quiet_record (by decide) _ _

theorem quiet_takeOver (loaded : ParsedModule) (location uri : String) (offset : Nat) :
    Quiet (takeOver loaded location uri offset) := by
  have hcode (isVariable : Bool) : (if isVariable then (ErrorCode.duplicateVariable, "variable")
      else (.duplicateFunction, "function")).1 ≠ .unknownPrefix := by
    cases isVariable <;> decide
  refine quiet_ite ((quiet_record (by decide) _ _).seq fun _ => quiet_pure _) ?_
  refine (quiet_amendGet _).seq fun clashes => ?_
  exact Quiet.seq (quiet_forIn (fun name => quiet_record (hcode _) _ _) clashes) fun _ => quiet_pure _

/-- The reports of an imported module are not those of the module that imports it. -/
theorem moduleCarries_loadFrom (importer : Importer σ) (uri location : String) (offset : Nat) :
    ModuleCarries t (loadFrom importer uri offset location) fun _ => t := by
  rintro ⟨s, imports⟩ hs
  unfold loadFrom
  dsimp only
  match importer.load location imports with
  | (.ok loaded, imports') =>
    exact moduleCarries_lift (quiet_takeOver loaded location uri offset t) (s, imports') hs
  | (.error error, imports') =>
    exact moduleCarries_lift (quiet_importFailed offset t) (s, imports') hs

theorem moduleCarries_loadImport (importer : Option (Importer σ)) (library : ModuleImport) (offset : Nat) :
    ModuleCarries t (loadImport importer library offset) fun _ => t := by
  cases importer with
  | none => exact moduleCarries_pure rfl rfl
  | some importer =>
    have hload (locations : List String) : ModuleCarries t (do
        for location in locations do
          loadFrom importer library.targetNamespace offset location : ModuleParser σ Unit) fun _ => t :=
      (Contract.forIn (fun location => moduleCarries_loadFrom importer _ location offset) locations).bind
        fun _ => moduleCarries_pure rfl rfl
    refine moduleCarries_get.bind fun ⟨s, imports⟩ => Contract.ite (fun _ => ?_) fun _ => hload _
    exact moduleCarries_lift_bind (quiet_record (by decide) _ _) fun _ => hload _

/-! ### Prologs -/

/-- What the declarations of a prolog hold. -/
abbrev Stock.declarations (ds : List Declaration) : Stock := .all (fun d => .declaration d.kind) ds

/-- Each round of a prolog adds what its declaration holds. -/
theorem moduleCarries_declarationsWithin (importer : Option (Importer σ)) (n : Nat) (part : Section)
    (t : Stock) :
    ModuleCarries t (declarationsWithin importer n part) fun ds => t ++ Stock.declarations ds := by
  induction n generalizing part t with
  | zero => exact moduleCarries_lift carries_exhausted
  | succ n ih =>
    refine (moduleCarries_lift (accounts_declarationHead t)).bind ?_
    rintro (_ | head)
    · exact moduleCarries_pure (by simp) (by simp)
    dsimp -zeta only
    extract_lets further rest
    have hfurther (a : Unit) : ModuleCarries (t ++ .declaration head.decl.kind) (further a) fun ds =>
        t ++ Stock.declarations ds :=
      (ih _ _).bind fun ds => moduleCarries_pure (by simp) (by simp)
    have hrest (a : Unit) : ModuleCarries (t ++ .declaration head.decl.kind) (rest a) fun ds =>
        t ++ Stock.declarations ds := by
      refine moduleCarries_lift_bind (quiet_expect _) fun _ => ?_
      refine Contract.ite (fun _ => ?_) fun _ => hfurther ()
      exact moduleCarries_lift_bind (quiet_record (by decide) _ _) fun _ => hfurther ()
    split
    · exact (moduleCarries_loadImport importer _ _).bind hrest
    · exact hrest ()

theorem moduleCarries_prolog (importer : Option (Importer σ)) (version : Option VersionDecl) (t : Stock) :
    ModuleCarries t (prolog importer version) fun p => t ++ Stock.declarations p.declarations :=
  moduleCarries_get.bind fun ⟨_, _⟩ => (moduleCarries_declarationsWithin importer _ _ t).bind fun _ =>
    moduleCarries_pure rfl rfl

/-! ### Modules -/

theorem quiet_checkVersion (decl : VersionDecl) : Quiet (checkVersion decl) := by
  unfold checkVersion
  extract_lets finish checkEncoding
  have hfinish (a : Unit) : Quiet (finish a) := (quiet_expect _).seq fun _ => quiet_pure _
  have hencoding (a : Unit) : Quiet (checkEncoding a) := by
    dsimp only [checkEncoding]
    split
    · exact quiet_ite ((quiet_warn (by decide) _ _).seq fun _ => hfinish ())
        ((quiet_record (by decide) _ _).seq fun _ => hfinish ())
    · exact hfinish ()
  split
  · exact quiet_ite ((quiet_record (by decide) _ _).seq fun _ => hencoding ()) (hencoding ())
  · exact hencoding ()

theorem quiet_versionDecl : Quiet versionDecl := by
  refine fun t => carries_ifEat ?_ (carries_ifEat ?_ (quiet_pure _ t))
  · refine (quiet_observe _).bind fun offset => (quiet_observe _).bind fun version => ?_
    refine (quiet_whenEats (quiet_observe _)).bind fun encoding => ?_
    exact (quiet_checkVersion _).bind fun _ => quiet_pure _ t
  · refine (quiet_observe _).bind fun offset => (quiet_observe _).bind fun encoding => ?_
    exact (quiet_checkVersion _).bind fun _ => quiet_pure _ t

theorem quiet_expectEnd : Quiet expectEnd :=
  (quiet_scan _).seq fun _ => quiet_ite (quiet_unexpected _) (quiet_pure _)

theorem moduleCarries_mainModule (importer : Option (Importer σ)) (version : Option VersionDecl) :
    ModuleCarries .empty (mainModule importer version) Stock.module := by
  refine (moduleCarries_prolog importer version _).bind fun p => ?_
  refine (moduleCarries_lift (accounts_queryBody accounts_exprSingle _)).bind fun body => ?_
  refine moduleCarries_lift_bind quiet_expectEnd fun _ => moduleCarries_pure ?_ ?_
  · simp [Module.declared, Module.prolog, List.flatMap_map]
  · simp [Module.exprs, Module.declared, Module.prolog, Module.body?, List.flatMap_map]

theorem quiet_libraryHeader (hasLocation : Bool) : Quiet (libraryHeader hasLocation) := by
  refine (quiet_expect _).seq fun _ => (quiet_observe _).seq fun offset => (quiet_expect _).seq fun _ => ?_
  refine (quiet_observe _).seq fun qualifier => (quiet_observe _).seq fun uri => ?_
  extract_lets rest
  have hrest (a : Unit) : Quiet (rest a) := by
    refine (quiet_checkBinding qualifier uri offset).seq fun _ => (quiet_amend _).seq fun _ => ?_
    have hname : Quiet (modify fun s => { s with
        declaredPrefixes := qualifier :: s.declaredPrefixes
        module := if !hasLocation && uri != "" then ⟨uri⟩ else s.module
        libraryNamespace := some uri }) := quiet_modify fun _ => rfl
    exact hname.seq fun _ => (quiet_expect _).seq fun _ => quiet_pure _
  exact quiet_ite ((quiet_record (by decide) _ _).seq fun _ => hrest ()) (hrest ())

theorem moduleCarries_libraryModule (importer : Option (Importer σ)) (hasLocation : Bool)
    (version : Option VersionDecl) :
    ModuleCarries .empty (libraryModule importer hasLocation version) Stock.module := by
  refine moduleCarries_lift_bind (quiet_libraryHeader hasLocation) fun ⟨qualifier, uri⟩ => ?_
  refine (moduleCarries_prolog importer version _).bind fun p => ?_
  refine moduleCarries_lift_bind quiet_expectEnd fun _ => moduleCarries_pure ?_ ?_
  · simp [Module.declared, Module.prolog, List.flatMap_map]
  · simp [Module.exprs, Module.declared, Module.prolog, Module.body?, List.flatMap_map]

theorem moduleCarries_moduleUnit (importer : Option (Importer σ)) (kind : Option ModuleKind)
    (hasLocation : Bool) :
    ModuleCarries .empty (moduleUnit importer kind hasLocation) Stock.module := by
  refine moduleCarries_lift_bind quiet_versionDecl fun version => ?_
  refine moduleCarries_lift_bind (quiet_peek _) fun isLibrary => ?_
  have hlibrary := moduleCarries_libraryModule importer hasLocation version
  have hmain := moduleCarries_mainModule importer version
  rcases kind with _ | _ | _ <;> cases isLibrary
  · exact hmain
  · exact hlibrary
  · exact hmain
  · exact moduleCarries_lift ((quiet_observe _).bind fun offset => carries_fatal _ _ _)
  · exact hlibrary
  · exact hlibrary

end Grammar

open Grammar

/-- Whatever is parsed and imported: every unbound name of a module is reported. If no enclosed expression
stands in an attribute that binds a namespace, where it is recorded and dropped, nothing else is reported
as an unbound name, and the reports are as many as the names. -/
theorem unbound_names_are_reported_once {σ : Type} (importer : Option (Importer σ))
    (kind : Option ModuleKind) (text : String) (config : Config) (imports : σ) (m : ParsedModule)
    (h : (parseModuleWith importer kind text config imports).1 = .ok m) :
    (m.module.unbound.map unboundMessage).Subperm (unboundReports m.diagnostics) ∧
    ((∀ d ∈ m.diagnostics, d.code ≠ .namespaceAttributeNotLiteral) →
      (unboundReports m.diagnostics).Perm (m.module.unbound.map unboundMessage) ∧
      m.diagnostics.countP (fun d => d.code = .unknownPrefix) = m.module.unbound.length) := by
  have hreports : (ParserState.ofText text config).Reports .empty :=
    ⟨.refl _, fun _ => .refl _⟩
  have hends := moduleCarries_moduleUnit importer kind config.sourceUri.isSome
    (.ofText text config, imports) hreports
  unfold parseModuleWith at h
  cases hr : moduleUnit importer kind config.sourceUri.isSome (.ofText text config, imports) <;>
    rw [hr] at h hends <;> cases h
  obtain ⟨hleast, hexact⟩ := hends
  rw [Stock.unbound_module] at hleast hexact
  refine ⟨hleast, fun hliteral => ?_⟩
  have hperm := hexact fun ⟨d, hd, hcode⟩ => hliteral d hd hcode
  refine ⟨hperm, ?_⟩
  -- The reports are the messages of the diagnostics that are counted.
  have hlength := hperm.length_eq
  rwa [unboundReports, List.length_map, List.length_map, ← List.countP_eq_length_filter] at hlength

/-- An option, a call and a name test with qualifiers that are not bound. -/
theorem unbound_option_call_and_test_are_reported_once :
    ∃ m, parseMainModule "declare option p:a ''; q:f(p:*)" .standard = .ok m ∧
      m.module.unbound = ["p", "q", "p"] ∧
      (unboundReports m.diagnostics).Perm (m.module.unbound.map unboundMessage) ∧
      m.diagnostics.countP (fun d => d.code = .unknownPrefix) = 3 := by
  obtain ⟨m, hm, htest⟩ := exists_ok_of_any
    (r := parseMainModule "declare option p:a ''; q:f(p:*)" .standard)
    (fun m => m.module.unbound == ["p", "q", "p"] &&
      m.diagnostics.all fun d => d.code ≠ .namespaceAttributeNotLiteral) (by
        rw [parseMainModule, parseModule_eq, String.toList_ofList]
        decide +kernel)
  obtain ⟨hnames, hliteral⟩ := Bool.and_eq_true_iff.1 htest
  obtain ⟨hperm, hcount⟩ := (unbound_names_are_reported_once none _ _ _ () m
    ((fst_parseModuleWith _ _ _).trans hm)).2 fun d hd => of_decide_eq_true (List.all_eq_true.1 hliteral d hd)
  have hnames := beq_iff_eq.1 hnames
  refine ⟨m, hm, hnames, hperm, ?_⟩
  rw [hcount, hnames]
  rfl

end XQuerySyntax
