import XQuerySyntax.Proofs.Static.Declare
import XQuerySyntax.Proofs.Tree.Expr

/-! Declarations that parsers yield, and the context behind them. Whatever a declaration is read with
leaves the context alone, so that behind it the context is the one before with the effect of the
declaration. -/

namespace XQuerySyntax

/-- The context is known up to the order of its namespaces. -/
def Knowledge.of (c : StaticContext) : Knowledge where
  holds := c.Agrees
  closed := .trans

/-- A sound declaration, and the context behind it if it is read in another one. -/
abbrev DeclarationKind.Done (o : Origin) (c : StaticContext) (kind : DeclarationKind)
    (c' : StaticContext) : Prop :=
  kind.Sound o ∧ (c.declare kind).Agrees c'

namespace Parser

variable {o : Origin} {d : Nat} {c : StaticContext} {α β : Type} {wrap : α → DeclarationKind}

/-- The parser ends with a sound declaration and with the effect of it on the context. -/
def Declares (o : Origin) (d : Nat) (wrap : α → DeclarationKind) (p : Parser α) : Prop :=
  ∀ c, Turns o d (Knowledge.of c).holds p fun a => (wrap a).Done o c

/-- The parser ends with a sound declaration, or with none and the context as it was. -/
def DeclaresOptional (o : Origin) (d : Nat) (wrap : α → DeclarationKind) (p : Parser (Option α)) :
    Prop :=
  ∀ c, Turns o d (Knowledge.of c).holds p fun found c' =>
    found.elim (c.Agrees c') fun a => (wrap a).Done o c c'

theorem Yields.declares_bind {p : Parser β} {next : β → Parser α} {good : β → Prop}
    (h : Yields o d p good) (hn : ∀ b, good b → Declares o d wrap (next b)) :
    Declares o d wrap (p >>= next) :=
  fun c => h.turns_bind fun b hb => hn b hb c

/-- What is read behind the effect of a declaration does not change it. -/
theorem Yields.done {p : Parser α} (kind : DeclarationKind) (h : Yields o d p fun a => wrap a = kind)
    (hk : kind.Sound o) :
    Turns o d (Knowledge.of (c.declare kind)).holds p fun a => (wrap a).Done o c := by
  refine Contract.weaken (h _) (fun _ hs => hs) fun a s hs => hs.mono ?_
  rintro c' ⟨rfl, hc⟩
  exact ⟨hk, hc⟩

theorem Declares.some {p : Parser α} {wrap' : β → DeclarationKind} (h : Declares o d wrap p)
    {f : α → β} (hf : ∀ a, wrap' (f a) = wrap a) :
    DeclaresOptional o d wrap' (do return some (f (← p))) := by
  refine fun c => (h c).bind fun a => turns_pure fun c' hc => ?_
  change (wrap' (f a)).Done o c c'
  rwa [hf]

theorem declares_none : DeclaresOptional o d wrap (pure none) := fun _ => turns_pure fun _ hc => hc

theorem declares_ifEat {r : Rule} {yes no : Parser (Option α)} (hy : DeclaresOptional o d wrap yes)
    (hn : DeclaresOptional o d wrap no) :
    DeclaresOptional o d wrap (eat r >>= fun matched => if matched then yes else no) :=
  fun c => (yields_eat r).turns_bind fun _ _ => turns_ite (fun _ => hy c) fun _ => hn c

/-! ### Changes of the context -/

theorem turns_valued {f : StaticContext → StaticContext} (kind : DeclarationKind)
    (hf : ∀ c, f c = c.valued kind) :
    Turns o d (Knowledge.of c).holds (amend f) fun _ => (Knowledge.of (c.valued kind)).holds := by
  refine turns_amend fun c' hc => ?_
  rw [hf]
  exact hc.valued kind

theorem turns_added {f : StaticContext → Bool × StaticContext} (kind : DeclarationKind)
    (hf : ∀ c, (f c).2 = c.valued kind) :
    Turns o d (Knowledge.of c).holds (amendGet f) fun _ => (Knowledge.of (c.valued kind)).holds := by
  refine turns_amendGet fun c' hc => ?_
  rw [hf]
  exact hc.valued kind

theorem turns_bindNamespace (qualifier uri : String) :
    Turns o d (Knowledge.of c).holds (amend (·.bind qualifier uri)) fun _ =>
      (Knowledge.of (c.bind qualifier uri)).holds :=
  turns_amend fun _ hc => hc.bind qualifier uri

end Parser

namespace Grammar

open XQuerySyntax.Parser

variable {o : Origin} {d : Nat} {offset : Nat} {c : StaticContext}

/-! ### Setters -/

theorem turns_claim (s : Setter) (code : ErrorCode) (h : o.HasPlace offset) :
    Turns o d (Knowledge.of c).holds (claim s code offset) fun _ =>
      (Knowledge.of (c.claimed (some s))).holds := by
  have hmark : Turns o d (Knowledge.of c).holds (amendGet (·.claim s)) fun _ =>
      (Knowledge.of (c.claimed (some s))).holds :=
    turns_amendGet fun _ hc => hc.claimed (some s)
  have hend (isNew : Bool) : Yields o d (do
      if !isNew then
        record code offset (s.text ++ " is declared more than once")) fun _ => True :=
    yields_ite (fun _ => yields_record h _ _) fun _ => yields_any
  exact hmark.bind fun isNew => (hend isNew).turns

theorem yields_claimQualifier (qualifier : String) (h : o.HasPlace offset) :
    Yields o d (claimQualifier qualifier offset) fun _ => True := by
  refine yields_get.bind fun s _ => yields_ite (fun _ => yields_record h _ _) fun _ => ?_
  exact yields_modify fun _ _ _ hs =>
    ⟨hs.scan, hs.module, hs.limit, hs.depth, hs.context, hs.recorded⟩

theorem yields_eitherWord {α : Type} (first second : Rule × α) :
    Yields o d (eitherWord first second) fun _ => True :=
  yields_ifEat yields_any ((yields_expect _).bind fun _ _ => yields_any)

/-- A setting that is claimed and then put into the static context. -/
theorem declares_setting {setter : Setter} {code : ErrorCode} {f : StaticContext → StaticContext}
    {kind : DeclarationKind} (ho : o.HasPlace offset) (hk : kind.Sound o)
    (hs : kind.setter? = some setter) (hn : kind.namespaces = []) (hf : ∀ c, f c = c.valued kind) :
    Declares o d id (do
      claim setter code offset
      amend f
      return kind) := by
  intro c
  refine (turns_claim setter code ho).bind fun _ => (turns_valued kind hf).bind fun _ => ?_
  have hdone : (c.claimed (some setter)).valued kind = c.declare kind := by
    rw [StaticContext.declare, hs, hn]
    rfl
  rw [hdone]
  exact (yields_pure rfl).done kind hk

theorem declares_copyNamespacesDecl (ho : o.HasPlace offset) :
    Declares o d id (copyNamespacesDecl offset) := by
  refine (yields_eitherWord _ _).declares_bind fun preserve _ => ?_
  refine (yields_expect _).declares_bind fun _ _ => ?_
  refine (yields_eitherWord _ _).declares_bind fun inherit _ => ?_
  exact declares_setting ho (.bare ⟨rfl, rfl, rfl⟩) rfl rfl fun _ => rfl

theorem declares_revalidationDecl (ho : o.HasPlace offset) :
    Declares o d id (revalidationDecl offset) := by
  have hend (mode : ValidationMode) : Declares o d id (do
      claim .revalidation .duplicateRevalidation offset
      amend fun c => { c with revalidation := some mode }
      return .revalidation mode) := declares_setting ho (.bare ⟨rfl, rfl, rfl⟩) rfl rfl fun _ => rfl
  refine (yields_eat _).declares_bind fun _ _ c => turns_ite (fun _ => ?_) fun _ => ?_
  · exact yields_any.turns_bind fun mode _ => hend mode c
  · exact (yields_eitherWord _ _).turns_bind fun mode _ => hend mode c

theorem yields_addFormatProperty (format : DecimalFormat) :
    Yields o d (addFormatProperty format) fun _ => True := by
  refine (yields_eat _).bind fun _ _ => yields_ite (fun _ => yields_any) fun _ => ?_
  refine yields_start.bind fun offset ho => (yields_capturedName 0).bind fun name _ => ?_
  refine (yields_capturedString 1).bind fun value _ => ?_
  dsimp only
  split
  · exact yields_fatal ho _ _
  · refine yields_ite (fun _ => (yields_record ho _ _).bind fun _ _ => yields_any) fun _ => ?_
    refine yields_ite (fun _ => ?_) fun _ => yields_any
    exact (yields_record ho _ _).bind fun _ _ => yields_any

theorem declares_decimalFormatDecl (name : Option QName) (ho : o.HasPlace offset) :
    Declares o d id (decimalFormatDecl name offset) := by
  refine (yields_iterate_any yields_addFormatProperty []).declares_bind fun format _ c => ?_
  refine (turns_added (.decimalFormat name format) fun c =>
    c.addDecimalFormat_eq _ _).bind fun isNew => ?_
  refine Yields.done (.decimalFormat name format) ?_ (.bare ⟨rfl, rfl, rfl⟩)
  refine yields_ite (fun _ => ?_) fun _ => yields_pure rfl
  exact (yields_record ho _ _).bind fun _ _ => yields_pure rfl

theorem declares_defaultNamespaceDecl (kind : DefaultNamespaceKind) (ho : o.HasPlace offset) :
    Declares o d id (defaultNamespaceDecl kind offset) := by
  refine (yields_capturedString 0).declares_bind fun uri _ c => ?_
  refine (turns_claim _ _ ho).bind fun _ => ?_
  refine (yields_checkDefaultNamespace uri ho).turns_bind fun _ _ => ?_
  cases kind with
  | element =>
    refine (turns_bindNamespace "" uri).bind fun _ => ?_
    rw [StaticContext.bind_claimed]
    exact (yields_pure rfl).done (.defaultNamespace .element uri) (.bare ⟨rfl, rfl, rfl⟩)
  | function =>
    refine (turns_valued (.defaultNamespace .function uri) fun _ => rfl).bind fun _ => ?_
    exact (yields_pure rfl).done (.defaultNamespace .function uri) (.bare ⟨rfl, rfl, rfl⟩)

theorem declares_namespaceDecl (ho : o.HasPlace offset) :
    Declares o d id (namespaceDecl offset) := by
  refine (yields_expect _).declares_bind fun _ _ => ?_
  refine (yields_capturedName 0).declares_bind fun qualifier _ => ?_
  refine (yields_capturedString 1).declares_bind fun uri _ => ?_
  refine (yields_checkBinding _ _ ho).declares_bind fun _ _ => ?_
  refine (yields_claimQualifier _ ho).declares_bind fun _ _ c => ?_
  refine (turns_bindNamespace qualifier uri).bind fun _ => ?_
  exact (yields_pure rfl).done (.namespaceDecl qualifier uri) (.bare ⟨rfl, rfl, rfl⟩)

theorem declares_optionDecl (ho : o.HasPlace offset) : Declares o d id (optionDecl offset) := by
  refine (yields_capturedQualifiedName 0).declares_bind fun lexical _ => ?_
  refine (yields_capturedString 1).declares_bind fun value _ => ?_
  refine (yields_plainName lexical ho).declares_bind fun name _ c => ?_
  refine (turns_valued (.option name value) fun _ => rfl).bind fun _ => ?_
  exact (yields_pure rfl).done (.option name value) (.bare ⟨rfl, rfl, rfl⟩)

theorem declares_ftOptionDecl : Declares o d id ftOptionDecl := by
  refine yields_matchOptions.declares_bind fun options hoptions c => turns_ite (fun _ => ?_) fun _ => ?_
  · exact turns_unexpected_bind _
  · refine (turns_valued (.ftOption options) fun _ => rfl).bind fun _ => ?_
    exact (yields_pure rfl).done (.ftOption options)
      ⟨List.forall_mem_nil _, List.forall_mem_nil _, List.forall_mem_singleton.2 hoptions⟩

theorem declares_setterDecl (ho : o.HasPlace offset) :
    DeclaresOptional o d id (setterDecl offset) := by
  have hend {p : Parser DeclarationKind} (h : Declares o d id p) :
      DeclaresOptional o d id (do return some (← p)) := h.some fun _ => rfl
  refine declares_ifEat (hend ?_) (declares_ifEat (hend ?_) (declares_ifEat (hend ?_)
    (declares_ifEat (hend ?_) (declares_ifEat (hend ?_) (declares_ifEat (hend ?_)
    (declares_ifEat (hend (declares_copyNamespacesDecl ho))
    (declares_ifEat (hend (declares_decimalFormatDecl none ho))
    (declares_ifEat ?_ (declares_ifEat (hend (declares_defaultNamespaceDecl _ ho))
    (declares_ifEat (hend (declares_defaultNamespaceDecl _ ho))
    (declares_ifEat (hend (declares_namespaceDecl ho)) declares_none)))))))))))
  · exact (yields_eitherWord _ _).declares_bind fun _ _ => declares_setting ho (.bare ⟨rfl, rfl, rfl⟩) rfl rfl fun _ => rfl
  · exact (yields_capturedString 0).declares_bind fun _ _ => declares_setting ho (.bare ⟨rfl, rfl, rfl⟩) rfl rfl fun _ => rfl
  · exact (yields_capturedString 0).declares_bind fun _ _ => declares_setting ho (.bare ⟨rfl, rfl, rfl⟩) rfl rfl fun _ => rfl
  · exact (yields_eitherWord _ _).declares_bind fun _ _ => declares_setting ho (.bare ⟨rfl, rfl, rfl⟩) rfl rfl fun _ => rfl
  · exact (yields_eitherWord _ _).declares_bind fun _ _ => declares_setting ho (.bare ⟨rfl, rfl, rfl⟩) rfl rfl fun _ => rfl
  · exact (yields_eitherWord _ _).declares_bind fun _ _ => declares_setting ho (.bare ⟨rfl, rfl, rfl⟩) rfl rfl fun _ => rfl
  · intro c
    refine (yields_capturedQualifiedName 0).turns_bind fun name _ => ?_
    refine (yields_plainName name ho).turns_bind fun name _ => ?_
    exact hend (declares_decimalFormatDecl (some name) ho) c

/-! ### Components -/

theorem yields_checkLibraryNamespace (name : QName) (what : String) (ho : o.HasPlace offset) :
    Yields o d (checkLibraryNamespace name what offset) fun _ => True := by
  refine yields_get.bind fun s _ => ?_
  split
  · exact yields_any
  · exact yields_ite (fun _ => yields_record ho _ _) fun _ => yields_any

theorem yields_initialValue :
    Yields o d initialValue fun found => ∀ e ∈ found.1, e.IsOperand o := by
  refine yields_ifEat ?_ (yields_ifEat ?_ (yields_unexpected _))
  · refine (yields_exprSingle d).bind fun value hv => yields_pure ?_
    rintro _ ⟨⟩
    exact hv
  · exact (yields_whenEats (yields_exprSingle d)).bind fun value hv => yields_pure hv

theorem declares_variableDecl (annotations : List AnnotationDecl) (ho : o.HasPlace offset) :
    Declares o d .variableDecl (variableDecl annotations offset) := by
  refine (yields_expect _).declares_bind fun _ _ => yields_start.declares_bind fun place hplace => ?_
  refine (yields_capturedQualifiedName 0).declares_bind fun name _ => ?_
  refine (yields_plainName name hplace).declares_bind fun name _ => ?_
  refine (yields_checkLibraryNamespace name _ hplace).declares_bind fun _ _ => ?_
  refine yields_declaredType.declares_bind fun typeDecl ht => ?_
  refine yields_initialValue.declares_bind fun ⟨value, isExternal⟩ hv c => ?_
  let kind : DeclarationKind := .variableDecl ⟨annotations, name, typeDecl, value, isExternal⟩
  refine (turns_added kind fun c => c.declareVariable_eq _).bind fun isNew => ?_
  refine Yields.done kind ?_
    ⟨forall_mem_toList.2 hv, forall_mem_toList.2 ht, List.forall_mem_nil _⟩
  refine yields_ite (fun _ => ?_) fun _ => yields_pure rfl
  exact (yields_record ho _ _).bind fun _ _ => yields_pure rfl

theorem declares_contextItemDecl (ho : o.HasPlace offset) :
    Declares o d id (contextItemDecl offset) := by
  refine yields_declaredType.declares_bind fun itemType ht => ?_
  refine yields_initialValue.declares_bind fun ⟨value, isExternal⟩ hv => ?_
  refine declares_setting ho ?_ rfl rfl fun _ => rfl
  exact ⟨forall_mem_toList.2 hv, forall_mem_toList.2 ht, List.forall_mem_nil _⟩

theorem yields_declaredBody (kind : FunctionKind) :
    Yields o d (declaredBody kind) fun found => ∀ e ∈ found, e.IsOperand o := by
  refine yields_ifEat yields_none ((yields_expect _).bind fun _ _ => ?_)
  exact yields_start.bind fun place hplace => (yields_functionBody yields_exprSingle _ hplace).some

theorem declares_functionDecl (annotations : List AnnotationDecl) (functionKind : FunctionKind)
    (ho : o.HasPlace offset) :
    Declares o d .functionDecl (functionDecl annotations functionKind offset) := by
  refine yields_start.declares_bind fun place hplace => ?_
  refine (yields_capturedQualifiedName 0).declares_bind fun name _ => ?_
  refine (yields_functionName name hplace).declares_bind fun name _ => ?_
  extract_lets rest
  have hrest (u : Unit) : Declares o d .functionDecl (rest u) := by
    refine (yields_checkLibraryNamespace name _ hplace).declares_bind fun _ _ => ?_
    refine (yields_expect _).declares_bind fun _ _ => yields_paramList.declares_bind fun params hp => ?_
    refine yields_declaredType.declares_bind fun returnType hr => ?_
    refine (yields_declaredBody functionKind).declares_bind fun body hb c => ?_
    let kind : DeclarationKind :=
      .functionDecl ⟨annotations, functionKind, name, params, returnType, body⟩
    refine (turns_added kind fun c => ?_).bind fun isNew => ?_
    · rw [StaticContext.declareFunction_eq, FunctionSignature.arity, List.length_map]
      rfl
    have htypes := List.forall_mem_append.2 ⟨hp, forall_mem_toList.2 hr⟩
    refine Yields.done kind ?_ ⟨forall_mem_toList.2 hb, htypes, List.forall_mem_nil _⟩
    refine yields_ite (fun _ => ?_) fun _ => yields_pure rfl
    exact (yields_record ho _ _).bind fun _ _ => yields_pure rfl
  split
  · exact fun c => turns_ite (fun _ => (yields_record hplace _ _).turns_bind fun _ _ => hrest () c)
      fun _ => hrest () c
  · exact hrest ()

theorem yields_functionKind : Yields o d functionKind fun _ => True :=
  (yields_eatFirst _).bind fun _ _ => yields_any

theorem declares_componentDecl (ho : o.HasPlace offset) :
    DeclaresOptional o d id (componentDecl offset) := by
  refine fun c => yields_annotationList.turns_bind fun annotations _ => ?_
  refine yields_functionKind.turns_bind fun kind _ => ?_
  refine declares_ifEat ?_ (declares_ifEat ?_ fun c => turns_ite (fun _ => ?_) fun _ => ?_) c
  · exact (declares_variableDecl annotations ho).some fun _ => rfl
  · exact (declares_functionDecl annotations kind ho).some fun _ => rfl
  · exact turns_unexpected_bind _
  · exact declares_none c

/-! ### Imports -/

theorem yields_locationHints : Yields o d locationHints fun _ => True := by
  refine yields_ifEat ((yields_capturedString 0).bind fun first _ => ?_) yields_any
  exact (yields_many (yields_whenEats (yields_capturedString 0))).bind fun _ _ => yields_any

theorem turns_bindImport (qualifier : Option String) (uri : String) (ho : o.HasPlace offset) :
    Turns o d (Knowledge.of c).holds (bindImport qualifier uri offset) fun _ =>
      (Knowledge.of (c.bindAll (qualifier.toList.map (·, uri)))).holds := by
  cases qualifier with
  | none => exact turns_pure fun _ hc => hc
  | some q =>
    refine (yields_checkBinding q uri ho).turns_bind fun _ _ => ?_
    exact (yields_claimQualifier q ho).turns_bind fun _ _ => turns_bindNamespace q uri

theorem declares_schemaImport (ho : o.HasPlace offset) :
    Declares o d id (schemaImport offset) := by
  refine (yields_whenEats (yields_capturedName 0)).declares_bind fun qualifier _ => ?_
  have hrest (isDefault : Bool) : Declares o d id (do
      expect Terminal.namespaceUri
      let uri ← capturedString 0
      let locations ← locationHints
      bindImport qualifier uri offset
      if isDefault then
        claim .defaultElementNamespace .duplicateDefaultNamespace offset
        amend (·.bind "" uri)
      if !(← amendGet (·.addSchemaImport uri locations)) then
        record .duplicateSchemaImport offset ("schema '" ++ uri ++ "' is imported more than once")
      return DeclarationKind.schemaImport ⟨qualifier, isDefault, uri, locations⟩) := by
    refine (yields_expect _).declares_bind fun _ _ => ?_
    refine (yields_capturedString 0).declares_bind fun uri _ => ?_
    refine yields_locationHints.declares_bind fun locations _ c => ?_
    let kind : DeclarationKind := .schemaImport ⟨qualifier, isDefault, uri, locations⟩
    have hend {c' : StaticContext} (h : c'.valued kind = c.declare kind) :
        Turns o d (Knowledge.of c').holds (do
          if !(← amendGet (·.addSchemaImport uri locations)) then
            record .duplicateSchemaImport offset ("schema '" ++ uri ++ "' is imported more than once")
          return kind) fun a => a.Done o c := by
      refine (turns_added kind fun c => c.addSchemaImport_eq _ _).bind fun isNew => ?_
      rw [h]
      refine Yields.done kind ?_ (.bare ⟨rfl, rfl, rfl⟩)
      refine yields_ite (fun _ => ?_) fun _ => yields_pure rfl
      exact (yields_record ho _ _).bind fun _ _ => yields_pure rfl
    refine (turns_bindImport qualifier uri ho).bind fun _ => ?_
    cases isDefault with
    | false =>
      refine hend ?_
      rw [StaticContext.declare, DeclarationKind.namespaces, if_neg Bool.false_ne_true,
        List.append_nil]
      rfl
    | true =>
      refine (turns_claim _ _ ho).bind fun _ => (turns_bindNamespace "" uri).bind fun _ => hend ?_
      rw [StaticContext.bind_claimed, StaticContext.declare, DeclarationKind.namespaces, if_pos rfl,
        StaticContext.bindAll_append]
      rfl
  refine fun c => turns_ite (fun _ => ?_) fun _ => ?_
  · exact (yields_eat _).turns_bind fun isDefault _ => hrest isDefault c
  · exact (yields_any (a := false)).turns_bind fun isDefault _ => hrest isDefault c

theorem declares_moduleImport (ho : o.HasPlace offset) :
    Declares o d (fun found => .moduleImport found.1) (moduleImport offset) := by
  refine (yields_whenEats (yields_capturedName 0)).declares_bind fun qualifier _ => ?_
  refine (yields_expect _).declares_bind fun _ _ => ?_
  refine (yields_capturedString 0).declares_bind fun uri _ => ?_
  refine yields_locationHints.declares_bind fun locations _ => ?_
  have hend : Declares o d (fun found => .moduleImport found.1) (do
      bindImport qualifier uri offset
      let isNew ← amendGet (·.addModuleImport uri locations)
      if !isNew then
        record .duplicateModuleImport offset ("module '" ++ uri ++ "' is imported more than once")
      return (ModuleImport.mk qualifier uri locations, isNew)) := by
    intro c
    let kind : DeclarationKind := .moduleImport ⟨qualifier, uri, locations⟩
    refine (turns_bindImport qualifier uri ho).bind fun _ => ?_
    refine (turns_added kind fun c => c.addModuleImport_eq _ _).bind fun isNew => ?_
    refine Yields.done kind ?_ (.bare ⟨rfl, rfl, rfl⟩)
    refine yields_ite (fun _ => ?_) fun _ => yields_pure rfl
    exact (yields_record ho _ _).bind fun _ _ => yields_pure rfl
  refine fun c => turns_ite (fun _ => ?_) fun _ => hend c
  exact (yields_record ho _ _).turns_bind fun _ _ => hend c

/-! ### Heads of declarations -/

theorem declares_declared (ho : o.HasPlace offset) :
    DeclaresOptional o d Prod.fst (declared offset) := by
  refine fun c => (declares_setterDecl ho c).bind ?_
  rintro (_ | kind)
  · refine declares_ifEat ?_ (declares_ifEat ?_ (declares_ifEat ?_ (declares_ifEat ?_ ?_))) c
    · exact (declares_optionDecl ho).some fun _ => rfl
    · exact declares_ftOptionDecl.some fun _ => rfl
    · exact (declares_revalidationDecl ho).some fun _ => rfl
    · exact (declares_contextItemDecl ho).some fun _ => rfl
    · refine fun c => (declares_componentDecl ho c).bind ?_
      rintro (_ | kind) <;> exact turns_pure fun _ hc => hc
  · exact turns_pure fun _ hc => hc

/-- A declaration is sound, stands in a place of the text, and has its effect on the context; if there
is none, the context is as it was. -/
theorem turns_declarationHead (c : StaticContext) :
    Turns o d (Knowledge.of c).holds declarationHead fun found c' =>
      found.elim (c.Agrees c') fun head =>
        o.HasPlace head.decl.offset ∧ head.decl.kind.Done o c c' := by
  refine yields_mark.turns_bind fun place hplace => ?_
  refine (yields_eat _).turns_bind fun _ _ => turns_ite (fun _ => ?_) fun _ => ?_
  · refine yields_start.turns_bind fun offset ho => ?_
    exact (declares_schemaImport ho c).bind fun _ => turns_pure fun _ hc => ⟨ho, hc⟩
  refine (yields_eat _).turns_bind fun _ _ => turns_ite (fun _ => ?_) fun _ => ?_
  · refine yields_start.turns_bind fun offset ho => ?_
    refine (declares_moduleImport ho c).bind fun ⟨library, isNew⟩ => turns_pure fun _ hc => ⟨ho, hc⟩
  refine (yields_eatFirst _).turns_bind fun _ _ => turns_ite (fun _ => ?_) fun _ => ?_
  · exact turns_pure fun _ hc => hc
  refine yields_start.turns_bind fun offset ho => (declares_declared ho c).bind ?_
  rintro (_ | ⟨kind, part⟩)
  · have hback : Turns o d (Knowledge.of c).holds (restore place) fun _ => (Knowledge.of c).holds :=
      (yields_restore hplace).turns
    exact hback.bind fun _ => turns_pure fun _ hc => hc
  · exact turns_pure fun _ hc => ⟨ho, hc⟩

end Grammar

end XQuerySyntax
