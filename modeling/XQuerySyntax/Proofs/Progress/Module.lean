import XQuerySyntax.Grammar.Module
import XQuerySyntax.Proofs.Progress.Expr

/-! Declarations come to an end. A declaration that is found has used up the word that opens it; where the
parser comes back to that word, it has found none. -/

namespace XQuerySyntax.Progress

open XQuerySyntax.Parser XQuerySyntax.Grammar

variable {n c : Nat}

/-! ### Settings -/

theorem stays_claim (setter : Setter) (code : ErrorCode) (offset : Nat) : Stays n c (claim setter code offset) :=
  (stays_amendGet _).seq fun _ => uses_ite (stays_record _ _ _) (stays_pure ())

theorem stays_claimQualifier (qualifier : String) (offset : Nat) : Stays n c (claimQualifier qualifier offset) :=
  still_get.stays.seq fun _ => uses_ite (stays_record _ _ _) (still_modify fun _ => rfl).stays

theorem stays_eitherWord {α : Type} (first second : Rule × α) : Stays n c (eitherWord first second) :=
  stays_ifEat (stays_pure _) ((stays_expect _).seq fun _ => stays_pure _)

/-- A setting that is claimed and then put into the static context. -/
theorem stays_setting {setter : Setter} {code : ErrorCode} {offset : Nat} {f : StaticContext → StaticContext}
    {kind : DeclarationKind} : Stays n c (do
      claim setter code offset
      amend f
      return kind) :=
  (stays_claim setter code offset).seq fun _ => (stays_amend f).seq fun _ => stays_pure _

theorem stays_copyNamespacesDecl (offset : Nat) : Stays n c (copyNamespacesDecl offset) :=
  (stays_eitherWord _ _).seq fun _ => (stays_expect _).seq fun _ => (stays_eitherWord _ _).seq fun _ =>
    stays_setting

theorem stays_revalidationDecl (offset : Nat) : Stays n c (revalidationDecl offset) :=
  stays_ifEat stays_setting ((stays_eitherWord _ _).seq fun _ => stays_setting)

theorem rounds_addFormatProperty (format : DecimalFormat) : Rounds n c (addFormatProperty format) := by
  refine fun b hb => Contract.bind (uses_eat (by rfl) b hb) ?_
  rintro (_ | _)
  · exact rounds_end _ b hb
  · refine Stays.uses ?_ hb
    refine (stays_observe _).seq fun offset => (stays_observe _).seq fun name => ?_
    refine (stays_observe _).seq fun value => ?_
    dsimp only
    split
    · exact uses_fatal (by decide) _ _
    · refine uses_ite ((stays_record _ _ _).seq fun _ => stays_pure _) ?_
      exact uses_ite ((stays_record _ _ _).seq fun _ => stays_pure _) (stays_pure _)

theorem stays_decimalFormatDecl (name : Option QName) (offset : Nat) : Stays n c (decimalFormatDecl name offset) := by
  refine (stays_iterate rounds_addFormatProperty _).seq fun format => (stays_amendGet _).seq fun isNew => ?_
  exact uses_ite ((stays_record _ _ _).seq fun _ => stays_pure _) (stays_pure _)

theorem stays_defaultNamespaceDecl (kind : DefaultNamespaceKind) (offset : Nat) :
    Stays n c (defaultNamespaceDecl kind offset) := by
  refine (stays_observe _).seq fun uri => (stays_claim _ _ offset).seq fun _ => ?_
  refine (stays_checkDefaultNamespace uri offset).seq fun _ => ?_
  cases kind <;> exact (stays_amend _).seq fun _ => stays_pure _

theorem stays_namespaceDecl (offset : Nat) : Stays n c (namespaceDecl offset) := by
  refine (stays_expect _).seq fun _ => (stays_observe _).seq fun qualifier => ?_
  refine (stays_observe _).seq fun uri => (stays_checkBinding qualifier uri offset).seq fun _ => ?_
  refine (stays_claimQualifier qualifier offset).seq fun _ => (stays_amend _).seq fun _ => ?_
  exact stays_pure _

theorem stays_optionDecl (offset : Nat) : Stays n c (optionDecl offset) := by
  refine (stays_observe _).seq fun lexical => (stays_observe _).seq fun value => ?_
  refine (stays_plainName lexical offset).seq fun name => (stays_amend _).seq fun _ => ?_
  exact stays_pure _

theorem stays_ftOptionDecl : Stays n c ftOptionDecl := by
  have hend (options : FtMatchOptions) : Stays n c (do
      amend fun c => { c with ftOptions := some options }
      return DeclarationKind.ftOption options) := (stays_amend _).seq fun _ => stays_pure _
  refine stays_matchOptions.seq fun options => uses_ite ?_ (hend options)
  exact (stays_unexpected _).seq fun _ => hend options

theorem stays_setterDecl (offset : Nat) : Stays n c (setterDecl offset) := by
  have hsome {p : Parser DeclarationKind} (h : Stays n c p) : Stays n c (do return some (← p)) :=
    h.seq fun _ => stays_pure _
  have hword {α : Type} {first second : Rule × α} {next : α → Parser DeclarationKind}
      (h : ∀ a, Stays n c (next a)) : Stays n c (eitherWord first second >>= next) :=
    (stays_eitherWord _ _).seq h
  have hvalue {next : String → Parser DeclarationKind} (h : ∀ uri, Stays n c (next uri)) :
      Stays n c (capturedString 0 >>= next) := (stays_observe _).seq h
  refine stays_ifEat (hsome ?_) (stays_ifEat (hsome ?_) (stays_ifEat (hsome ?_)
    (stays_ifEat (hsome ?_) (stays_ifEat (hsome ?_) (stays_ifEat (hsome ?_)
    (stays_ifEat (hsome (stays_copyNamespacesDecl offset))
    (stays_ifEat (hsome (stays_decimalFormatDecl none offset)) (stays_ifEat ?_
    (stays_ifEat (hsome (stays_defaultNamespaceDecl _ offset))
    (stays_ifEat (hsome (stays_defaultNamespaceDecl _ offset))
    (stays_ifEat (hsome (stays_namespaceDecl offset)) (stays_pure _))))))))))))
  · exact hword fun _ => stays_setting
  · exact hvalue fun _ => stays_setting
  · exact hvalue fun _ => stays_setting
  · exact hword fun _ => stays_setting
  · exact hword fun _ => stays_setting
  · exact hword fun _ => stays_setting
  · refine (stays_observe _).seq fun lexical => (stays_plainName lexical offset).seq fun name => ?_
    exact hsome (stays_decimalFormatDecl (some name) offset)

/-! ### Components -/

theorem stays_checkLibraryNamespace (name : QName) (what : String) (offset : Nat) :
    Stays n c (checkLibraryNamespace name what offset) := by
  refine still_get.stays.seq fun s => ?_
  split
  · exact stays_pure _
  · exact uses_ite (stays_record _ _ _) (stays_pure _)

theorem stays_initialValue : Stays n c initialValue := by
  refine stays_ifEat (gains_exprSingle.stays.seq fun value => stays_pure _) (stays_ifEat ?_ (uses_unexpected _))
  exact (stays_whenEats gains_exprSingle.stays).seq fun value => stays_pure _

theorem stays_variableDecl (annotations : List AnnotationDecl) (offset : Nat) :
    Stays n c (variableDecl annotations offset) := by
  refine (stays_expect _).seq fun _ => (stays_observe _).seq fun place => ?_
  refine (stays_observe _).seq fun lexical => (stays_plainName lexical place).seq fun name => ?_
  refine (stays_checkLibraryNamespace name _ place).seq fun _ => stays_declaredType.seq fun type => ?_
  refine stays_initialValue.seq fun ⟨value, isExternal⟩ => (stays_amendGet _).seq fun isNew => ?_
  exact uses_ite ((stays_record _ _ _).seq fun _ => stays_pure _) (stays_pure _)

theorem stays_contextItemDecl (offset : Nat) : Stays n c (contextItemDecl offset) := by
  refine stays_declaredType.seq fun type => stays_initialValue.seq fun ⟨value, isExternal⟩ => ?_
  exact (stays_claim _ _ offset).seq fun _ => (stays_amend _).seq fun _ => stays_pure _

theorem stays_declaredBody (kind : FunctionKind) : Stays n c (declaredBody kind) := by
  refine stays_ifEat (stays_pure _) ((stays_expect _).seq fun _ => (stays_observe _).seq fun place => ?_)
  exact (stays_functionBody gains_exprSingle _ place).seq fun body => stays_pure _

theorem stays_functionDecl (annotations : List AnnotationDecl) (kind : FunctionKind) (offset : Nat) :
    Stays n c (functionDecl annotations kind offset) := by
  refine (stays_observe _).seq fun place => (stays_observe _).seq fun lexical => ?_
  refine (stays_functionName lexical place).seq fun name => ?_
  extract_lets rest
  have hrest (a : Unit) : Stays n c (rest a) := by
    refine (stays_checkLibraryNamespace name _ place).seq fun _ => (stays_expect _).seq fun _ => ?_
    refine stays_paramList.seq fun params => stays_declaredType.seq fun type => ?_
    refine (stays_declaredBody kind).seq fun body => (stays_amendGet _).seq fun isNew => ?_
    exact uses_ite ((stays_record _ _ _).seq fun _ => stays_pure _) (stays_pure _)
  split
  · exact uses_ite ((stays_record _ _ _).seq fun _ => hrest ()) (hrest ())
  · exact hrest ()

theorem stays_componentDecl (offset : Nat) : Stays n c (componentDecl offset) := by
  have hkind : Stays n c functionKind := (stays_eatFirst _).seq fun _ => stays_pure _
  refine stays_annotationList.seq fun annotations => hkind.seq fun kind => ?_
  refine stays_ifEat ?_ (stays_ifEat ?_ ?_)
  · exact (stays_variableDecl annotations offset).seq fun _ => stays_pure _
  · exact (stays_functionDecl annotations kind offset).seq fun _ => stays_pure _
  · exact uses_ite ((stays_unexpected _).seq fun _ => stays_pure _) (stays_pure _)

/-! ### Imports -/

theorem stays_locationHints : Stays n c locationHints := by
  refine stays_ifEat ((stays_observe _).seq fun first => ?_) (stays_pure _)
  exact (stays_many (finds_whenEats (by rfl) (stays_observe _))).seq fun _ => stays_pure _

theorem stays_bindImport (qualifier : Option String) (uri : String) (offset : Nat) :
    Stays n c (bindImport qualifier uri offset) := by
  cases qualifier with
  | none => exact stays_pure _
  | some q =>
    exact (stays_checkBinding q uri offset).seq fun _ => (stays_claimQualifier q offset).seq fun _ =>
      stays_amend _

theorem stays_schemaImport (offset : Nat) : Stays n c (schemaImport offset) := by
  refine (stays_whenEats (stays_observe _)).seq fun qualifier => ?_
  have hrest (isDefault : Bool) : Stays n c (do
      expect Terminal.namespaceUri
      let uri ← capturedString 0
      let locations ← locationHints
      bindImport qualifier uri offset
      if isDefault then
        claim .defaultElementNamespace .duplicateDefaultNamespace offset
        amend (·.bind "" uri)
      if !(← amendGet (·.addSchemaImport uri locations)) then
        record .duplicateSchemaImport offset ("schema '" ++ uri ++ "' is imported more than once")
      return DeclarationKind.schemaImport ⟨qualifier, isDefault, uri, locations⟩) := by
    refine (stays_expect _).seq fun _ => (stays_observe _).seq fun uri => ?_
    refine stays_locationHints.seq fun locations => (stays_bindImport qualifier uri offset).seq fun _ => ?_
    have hend : Stays n c (do
        if !(← amendGet (·.addSchemaImport uri locations)) then
          record .duplicateSchemaImport offset ("schema '" ++ uri ++ "' is imported more than once")
        return DeclarationKind.schemaImport ⟨qualifier, isDefault, uri, locations⟩) :=
      (stays_amendGet _).seq fun isNew =>
        uses_ite ((stays_record _ _ _).seq fun _ => stays_pure _) (stays_pure _)
    refine uses_ite ?_ hend
    exact (stays_claim _ _ offset).seq fun _ => (stays_amend _).seq fun _ => hend
  exact uses_ite ((stays_eat _).seq hrest) ((stays_pure false).seq hrest)

theorem stays_moduleImport (offset : Nat) : Stays n c (moduleImport offset) := by
  refine (stays_whenEats (stays_observe _)).seq fun qualifier => (stays_expect _).seq fun _ => ?_
  refine (stays_observe _).seq fun uri => stays_locationHints.seq fun locations => ?_
  have hend : Stays n c (do
      bindImport qualifier uri offset
      let isNew ← amendGet (·.addModuleImport uri locations)
      if !isNew then
        record .duplicateModuleImport offset ("module '" ++ uri ++ "' is imported more than once")
      return (ModuleImport.mk qualifier uri locations, isNew)) := by
    refine (stays_bindImport qualifier uri offset).seq fun _ => (stays_amendGet _).seq fun isNew => ?_
    exact uses_ite ((stays_record _ _ _).seq fun _ => stays_pure _) (stays_pure _)
  exact uses_ite ((stays_record _ _ _).seq fun _ => hend) hend

/-! ### Heads of declarations -/

theorem stays_declared (offset : Nat) : Stays n c (declared offset) := by
  refine (stays_setterDecl offset).seq ?_
  rintro (_ | kind)
  · refine stays_ifEat ?_ (stays_ifEat ?_ (stays_ifEat ?_ (stays_ifEat ?_ ?_)))
    · exact (stays_optionDecl offset).seq fun _ => stays_pure _
    · exact stays_ftOptionDecl.seq fun _ => stays_pure _
    · exact (stays_revalidationDecl offset).seq fun _ => stays_pure _
    · exact (stays_contextItemDecl offset).seq fun _ => stays_pure _
    · refine (stays_componentDecl offset).seq ?_
      rintro (_ | kind)
      · exact stays_pure _
      · exact stays_pure _
  · exact stays_pure _

theorem finds_declarationHead : Finds n c declarationHead := by
  refine fun b hb => goes_mark_bind fun place hplace => ?_
  refine Contract.bind (uses_eat (by rfl) b hb) fun isSchema => ?_
  cases isSchema with
  | true =>
    refine Stays.uses ?_ hb
    exact (stays_observe _).seq fun offset => (stays_schemaImport offset).seq fun _ => stays_pure _
  | false =>
    refine Contract.bind (uses_eat (by rfl) b hb) fun isModule => ?_
    cases isModule with
    | true =>
      refine Stays.uses ?_ hb
      exact (stays_observe _).seq fun offset => (stays_moduleImport offset).seq fun _ => stays_pure _
    | false =>
      refine Contract.bind (finds_eatFirst (by decide) b hb) ?_
      rintro (_ | _)
      · exact finds_none b hb
      · have hb' : 0 ≤ b + 1 := Nat.zero_le _
        refine Contract.bind (stays_observe _ _ hb') fun offset => Contract.bind (stays_declared offset _ hb') ?_
        rintro (_ | ⟨kind, part⟩)
        · exact Contract.bind (goes_restore hplace) fun _ _ hs => hs
        · exact fun _ hs => hs

end XQuerySyntax.Progress

/-! ### Modules

Modules come to an end, whatever their importer answers. A module stops at an error in its text, or with
the code of an answer to one of its imports; it never uses up its steps. -/

namespace XQuerySyntax

/-- The code with which a module stops that cannot have what it imports. Without a code it goes on. -/
def ImportError.stopCode? : ImportError → Option ErrorCode
  | .cycle _ => some .cyclicImport
  | .broken _ e => some e.diagnostic.code
  | .unreadable _ _ => none
  | .tooDeep _ => none

/-- The code with which a module stops that gets this answer to an import. -/
def stopCode? : Except ImportError ParsedModule → Option ErrorCode
  | .ok _ => none
  | .error e => e.stopCode?

namespace Progress

open XQuerySyntax.Parser XQuerySyntax.Grammar

variable {σ α : Type} {n b c : Nat}

/-! ### Parts of a module -/

theorem stays_takeOver (loaded : ParsedModule) (location uri : String) (offset : Nat) :
    Stays n c (takeOver loaded location uri offset) := by
  refine uses_ite ((stays_record _ _ _).seq fun _ => stays_pure _) ((stays_amendGet _).seq fun clashes => ?_)
  exact (still_forIn (fun name => still_record _ _ _) clashes).stays.seq fun _ => stays_pure _

theorem stays_checkVersion (decl : VersionDecl) : Stays n c (checkVersion decl) := by
  unfold checkVersion
  extract_lets finish checkEncoding
  have hfinish (a : Unit) : Stays n c (finish a) := (stays_expect _).seq fun _ => stays_pure _
  have hencoding (a : Unit) : Stays n c (checkEncoding a) := by
    dsimp only [checkEncoding]
    split
    · exact uses_ite ((still_note _).stays.seq fun _ => hfinish ())
        ((stays_record _ _ _).seq fun _ => hfinish ())
    · exact hfinish ()
  split
  · exact uses_ite ((stays_record _ _ _).seq fun _ => hencoding ()) (hencoding ())
  · exact hencoding ()

theorem stays_versionDecl : Stays n c versionDecl := by
  refine stays_ifEat ?_ (stays_ifEat ?_ (stays_pure _))
  · refine (stays_observe _).seq fun offset => (stays_observe _).seq fun version => ?_
    refine (stays_whenEats (stays_observe _)).seq fun encoding => ?_
    exact (stays_checkVersion _).seq fun _ => stays_pure _
  · refine (stays_observe _).seq fun offset => (stays_observe _).seq fun encoding => ?_
    exact (stays_checkVersion _).seq fun _ => stays_pure _

theorem stays_libraryHeader (hasLocation : Bool) : Stays n c (libraryHeader hasLocation) := by
  refine (stays_expect _).seq fun _ => (stays_observe _).seq fun offset => (stays_expect _).seq fun _ => ?_
  refine (stays_observe _).seq fun qualifier => (stays_observe _).seq fun uri => ?_
  extract_lets rest
  have hrest (a : Unit) : Stays n c (rest a) := by
    refine (stays_checkBinding qualifier uri offset).seq fun _ => (stays_amend _).seq fun _ => ?_
    have hname : Stays n c (modify fun s => { s with
        declaredPrefixes := qualifier :: s.declaredPrefixes
        module := if !hasLocation && uri != "" then ⟨uri⟩ else s.module
        libraryNamespace := some uri }) := (still_modify fun _ => rfl).stays
    exact hname.seq fun _ => (stays_expect _).seq fun _ => stays_pure _
  exact uses_ite ((stays_record _ _ _).seq fun _ => hrest ()) (hrest ())

/-- At its beginning nothing of a text has been read. -/
theorem past_ofText (text : String) (config : Config) :
    (ParserState.ofText text config).scan.Past (byteLength text.toList) 0 :=
  ⟨rfl, Nat.le_of_eq (Nat.zero_add _)⟩

/-! ### Modules -/

/-- A statement about an importer that its answers keep true, and what is true of it when a module has
stopped: at an error in the text of the module, or with the code of an answer. -/
structure Sustained (importer : Option (Importer σ)) (during : σ → Prop) (stopped : Stop → σ → Prop) : Prop where
  stop : ∀ {stop i}, stop.Ordinary → during i → stopped stop i
  load : ∀ I ∈ importer, ∀ {location i outcome i'}, I.load location i = (outcome, i') → during i →
    match stopCode? outcome with
    | none => during i'
    | some code => ∀ d : Diagnostic, d.code = code → stopped (.fatal d) i'

namespace Sustained

variable {importer : Option (Importer σ)} {during : σ → Prop} {stopped : Stop → σ → Prop}

/-- The parser of modules does not go back, and the statement is true behind it, or what is true of a module
that has stopped. -/
abbrev Sustains (n b : Nat) (during : σ → Prop) (stopped : Stop → σ → Prop) (p : ModuleParser σ α) : Prop :=
  Contract (fun s => s.1.scan.Past n b ∧ during s.2) p (fun _ s => s.1.scan.Past n b ∧ during s.2)
    fun stop s => stopped stop s.2

theorem lift_goes (h : Sustained importer during stopped) {pre : Matcher → Prop} {post : α → Matcher → Prop}
    {p : Parser α} (hp : Goes pre p post) :
    Contract (fun s : ParserState × σ => pre s.1.scan ∧ during s.2) (Grammar.lift p)
      (fun a s => post a s.1.scan ∧ during s.2) fun stop s => stopped stop s.2 := by
  rintro ⟨s, i⟩ ⟨hs, hi⟩
  have hend := hp s hs
  unfold Grammar.lift
  dsimp only
  cases hr : p s <;> rw [hr] at hend
  · exact ⟨hend, hi⟩
  · exact h.stop hend hi

theorem lift (h : Sustained importer during stopped) {p : Parser α} (hp : Stays n b p) :
    Sustains n b during stopped (Grammar.lift p) := h.lift_goes (hp b (Nat.le_refl b))

theorem loadFrom {I : Importer σ} (h : Sustained (some I) during stopped) (uri : String) (offset : Nat)
    (location : String) : Sustains n b during stopped (loadFrom I uri offset location) := by
  rintro ⟨s, i⟩ ⟨hs, hi⟩
  unfold Grammar.loadFrom
  dsimp only
  rcases hr : I.load location i with ⟨outcome, i'⟩
  have hload := h.load I rfl hr hi
  cases outcome with
  | ok loaded => exact h.lift (stays_takeOver loaded location uri offset) (s, i') ⟨hs, hload⟩
  | error e =>
    cases e with
    | cycle chain => exact hload _ rfl
    | broken location e => exact hload _ rfl
    | unreadable location reason => exact h.lift (stays_record _ _ _) (s, i') ⟨hs, hload⟩
    | tooDeep limit => exact h.lift (stays_record _ _ _) (s, i') ⟨hs, hload⟩

theorem loadImport (h : Sustained importer during stopped) (library : ModuleImport) (offset : Nat) :
    Sustains n b during stopped (loadImport importer library offset) := by
  cases importer with
  | none => exact fun _ hs => hs
  | some I =>
    have hget : Sustains n b during stopped (get : ModuleParser σ (ParserState × σ)) := fun _ hs => hs
    refine hget.bind fun ⟨s, i⟩ => ?_
    have hloads (locations : List String) : Sustains n b during stopped (do
        for location in locations do
          Grammar.loadFrom I library.targetNamespace offset location) :=
      (Contract.forIn (fun location => h.loadFrom _ offset location) locations).bind fun _ _ hs => hs
    exact Contract.ite (fun _ => (h.lift (stays_record _ _ _)).bind fun _ => hloads _) fun _ => hloads _

/-- A prolog that has as many steps left as there are bytes ends before they are used up. -/
theorem declarationsWithin (h : Sustained importer during stopped) {steps : Nat} (hsteps : n < b + steps)
    (part : Section) : Sustains n b during stopped (declarationsWithin importer steps part) := by
  induction steps generalizing b part with
  | zero =>
    rintro s ⟨hs, -⟩
    have hplace := hs.place
    omega
  | succ steps ih =>
    refine Contract.bind (h.lift_goes (finds_declarationHead b (Nat.le_refl b))) ?_
    rintro (_ | head)
    · exact fun _ hs => hs
    -- The word that opens the declaration is behind the parser.
    have hlater (part : Section) := ih (by omega : n < b + 1 + steps) part
    dsimp -zeta only
    extract_lets further rest
    have hfurther (u : Unit) : Sustains n (b + 1) during stopped (further u) := (hlater _).bind fun _ _ hs => hs
    have hrest (u : Unit) : Sustains n (b + 1) during stopped (rest u) :=
      (h.lift (stays_expect _)).bind fun _ =>
        Contract.ite (fun _ => (h.lift (stays_record _ _ _)).bind hfurther) fun _ => hfurther ()
    have hback {p : ModuleParser σ (List Declaration)} (hp : Sustains n (b + 1) during stopped p) :
        Contract (fun s => s.1.scan.Past n (b + 1) ∧ during s.2) p (fun _ s => s.1.scan.Past n b ∧ during s.2)
          fun stop s => stopped stop s.2 :=
      hp.weaken (fun _ hs => hs) fun _ _ hs => ⟨hs.1.mono (Nat.le_succ b), hs.2⟩
    refine hback ?_
    split
    · exact (h.loadImport _ _).bind hrest
    · exact hrest ()

theorem prolog (h : Sustained importer during stopped) (version : Option VersionDecl) :
    Sustains n b during stopped (prolog importer version) := by
  rintro ⟨s, i⟩ hs
  have hsteps : s.steps = n + 1 := congrArg (· + 1) hs.1.size
  have hdeclarations := h.declarationsWithin (by omega : n < b + s.steps) .setup
  have hprolog : Sustains n b during stopped (do
      return Prolog.mk version (← Grammar.declarationsWithin importer s.steps .setup)) :=
    hdeclarations.bind fun _ _ hs => hs
  exact hprolog (s, i) hs

theorem moduleUnit (h : Sustained importer during stopped) (kind : Option ModuleKind) (hasLocation : Bool) :
    Sustains n b during stopped (moduleUnit importer kind hasLocation) := by
  have hmain (version : Option VersionDecl) : Sustains n b during stopped (mainModule importer version) :=
    (h.prolog version).bind fun _ => (h.lift (stays_queryBody gains_exprSingle)).bind fun _ =>
      (h.lift stays_expectEnd).bind fun _ _ hs => hs
  have hlibrary (version : Option VersionDecl) :
      Sustains n b during stopped (libraryModule importer hasLocation version) :=
    (h.lift (stays_libraryHeader _)).bind fun _ => (h.prolog version).bind fun _ =>
      (h.lift stays_expectEnd).bind fun _ _ hs => hs
  refine (h.lift stays_versionDecl).bind fun version => (h.lift (stays_peek _)).bind fun isLibrary => ?_
  rcases kind with _ | _ | _ <;> cases isLibrary
  · exact hmain version
  · exact hlibrary version
  · exact hmain version
  · exact h.lift ((stays_observe _).seq fun _ => uses_fatal (by decide) _ _)
  · exact hlibrary version
  · exact hlibrary version

/-- What the answers of an importer keep true is true behind a module. -/
theorem of_ok (h : Sustained importer during stopped) {kind : Option ModuleKind} {text : String} {config : Config}
    {i i' : σ} {m : ParsedModule} (hi : during i)
    (hr : parseModuleWith importer kind text config i = (.ok m, i')) : during i' := by
  have hends := h.moduleUnit kind config.sourceUri.isSome (.ofText text config, i) ⟨past_ofText text config, hi⟩
  unfold parseModuleWith at hr
  cases hu : Grammar.moduleUnit importer kind config.sourceUri.isSome (.ofText text config, i) <;>
    rw [hu] at hr hends <;> cases hr
  exact hends.2

/-- A module that has stopped has stopped at an error in its text or with the code of an answer. -/
theorem of_error (h : Sustained importer during stopped) {kind : Option ModuleKind} {text : String}
    {config : Config} {i i' : σ} {e : ParseError} (hi : during i)
    (hr : parseModuleWith importer kind text config i = (.error e, i')) :
    ∃ stop, e.diagnostic = Stop.diagnostic stop ∧ stopped stop i' := by
  have hends := h.moduleUnit kind config.sourceUri.isSome (.ofText text config, i) ⟨past_ofText text config, hi⟩
  unfold parseModuleWith at hr
  cases hu : Grammar.moduleUnit importer kind config.sourceUri.isSome (.ofText text config, i) <;>
    rw [hu] at hr hends <;> cases hr
  exact ⟨_, rfl, hends⟩

end Sustained

/-- An importer may answer what it likes. -/
theorem sustained_any (importer : Option (Importer σ)) :
    Sustained importer (fun _ => True) fun stop _ => ∃ d, stop = .fatal d where
  stop {stop _} hstop _ := by
    cases stop with
    | fatal d => exact ⟨d, rfl⟩
    | exhausted => exact hstop.elim
  load _ _ {_ _ outcome _} _ _ := by
    split
    · trivial
    · exact fun d _ => ⟨d, rfl⟩

end Progress

open Grammar Progress

/-- Every parse ends. A rule of the table that matches uses up a byte at least; so single expressions within
single expressions, and the declarations of a prolog, take fewer steps than a text has bytes and one more; and
no parser of a text or of a module, whatever the module imports, stops for want of steps. -/
theorem every_parse_ends (text : String) (config : Config) :
    (∀ r ∈ Terminal.named, ∀ m m', Scan.eat r.2 m = .ok true m' →
      byteLength m'.cursor.rest < byteLength m.cursor.rest) ∧
    (ParserState.ofText text config).steps = byteLength text.toList + 1 ∧
    (∀ steps s, byteLength text.toList < steps →
      singleWithin steps (.ofText text config) ≠ .error .exhausted s) ∧
    (∀ s, expressionUnit (.ofText text config) ≠ .error .exhausted s) ∧
    ∀ (σ : Type) (importer : Option (Importer σ)) kind hasLocation imports s,
      moduleUnit importer kind hasLocation (.ofText text config, imports) ≠ .error .exhausted s := by
  have hpast := past_ofText text config
  refine ⟨fun r hr m m' h => Scan.byteLength_lt_of_eat (Scan.isVisible_of_mem_named r hr) h, rfl, ?_, ?_, ?_⟩
  · intro steps s hsteps h
    have hsingle : Gains (byteLength text.toList) 0 (singleWithin steps) := gains_singleWithin (by omega)
    exact (hsingle 0 (Nat.le_refl 0)).of_error hpast h
  · intro s h
    have hexpr : Stays (byteLength text.toList) 0 expressionUnit :=
      (gains_expr gains_exprSingle).stays.seq fun _ => stays_expectEnd.seq fun _ => stays_pure _
    exact (hexpr 0 (Nat.le_refl 0)).of_error hpast h
  · intro σ importer kind hasLocation imports s h
    have hunit := (sustained_any importer).moduleUnit (n := byteLength text.toList) (b := 0) kind hasLocation
    obtain ⟨d, hd⟩ := hunit.of_error ⟨hpast, trivial⟩ h
    cases hd

/-- A number uses up its digit, and a sum of five bytes takes no more than six single expressions. -/
theorem sum_ends_within_its_length :
    (∃ m', Scan.eat Terminal.numericLiteral (ParserState.ofText "1 + 2" .standard).scan = .ok true m' ∧
      byteLength m'.cursor.rest < 5) ∧
    ∀ s, singleWithin 6 (.ofText "1 + 2" .standard) ≠ .error .exhausted s := by
  obtain ⟨hrules, -, hsingle, -⟩ := every_parse_ends "1 + 2" .standard
  refine ⟨?_, fun s => hsingle 6 s (by decide +kernel)⟩
  have hmem : ("numericLiteral", Terminal.numericLiteral) ∈ Terminal.named := by
    simp [Terminal.named, Terminal.pathRules]
  have hmatches : (Scan.eat Terminal.numericLiteral (ParserState.ofText "1 + 2" .standard).scan).answer.toOption =
      some true := by decide +kernel
  cases hr : Scan.eat Terminal.numericLiteral (ParserState.ofText "1 + 2" .standard).scan with
  | error e m' =>
    rw [hr] at hmatches
    cases hmatches
  | ok matched m' =>
    rw [hr] at hmatches
    obtain rfl : matched = true := Option.some.inj hmatches
    exact ⟨m', rfl, Nat.lt_of_lt_of_eq (hrules _ hmem _ m' hr) (by decide +kernel)⟩

end XQuerySyntax
