import XQuerySyntax.Proofs.Comparison.Declaration

/-! Modules in two runs that are always at the same place and import from the same importer. The modules
are the same, or the first one shows that the dropped extension has been used. -/

namespace XQuerySyntax.Comparison

variable {S : Comparison}

/-- Lists of declarations that are the same. -/
def declarations (S : Comparison) : S.Likeness (List Declaration) :=
  .same fun ds => ∃ d ∈ ds, S.declaration.owes d.kind

/-- Modules that are the same. -/
def module (S : Comparison) : S.Likeness Module := .same fun m => S.dropped ≠ .core ∧ m.Uses S.dropped

@[simp]
theorem owes_declarations_nil : S.declarations.owes [] ↔ False := by simp [declarations]

@[simp]
theorem owes_declarations_cons (d : Declaration) (ds : List Declaration) :
    S.declarations.owes (d :: ds) ↔ S.declaration.owes d.kind ∨ S.declarations.owes ds := by
  simp [declarations]

/-- A module shows the extension in its declarations or in its body. -/
theorem owes_module (m : Module) :
    S.module.owes m ↔ S.declarations.owes m.prolog.declarations ∨ S.expr.option.owes m.body? := by
  change S.dropped ≠ .core ∧ m.Uses S.dropped ↔
    (∃ d ∈ m.prolog.declarations, S.Drops d.kind.belongsTo ∨
      ∃ e ∈ d.kind.exprs, S.dropped ≠ .core ∧ e.Uses S.dropped) ∨
    ∃ e ∈ m.body?, S.dropped ≠ .core ∧ e.Uses S.dropped
  rw [Module.uses_iff]
  simp only [Module.declared, List.mem_map, exists_exists_and_eq_and]
  simp only [drops_iff, and_or_left, ← exists_and_left, and_left_comm]

end XQuerySyntax.Comparison

namespace XQuerySyntax.Grammar

open XQuerySyntax.Parser Comparison

variable {S : Comparison} {σ α β : Type} {shown : Prop} {L : S.Likeness α}

/-- What two runs have in common if they have imported the same. -/
def Alike (P : ParserState → ParserState → Prop) (s s' : ParserState × σ) : Prop :=
  P s.1 s'.1 ∧ s'.2 = s.2

theorem lift_eq (p : Parser α) (s : ParserState × σ) : lift p s =
    match p s.1 with
    | .ok a s' => .ok a (s', s.2)
    | .error e s' => .error e (s', s.2) := rfl

/-- What has nothing to do with an importer leaves it alone in both runs. -/
theorem agree_lift {P : ParserState → ParserState → Prop} {Q : α → ParserState → ParserState → Prop}
    {p p' : Parser α} (h : S.Agree shown P p p' L Q) :
    S.Agree shown (Alike P) (lift p : ModuleParser σ α) (lift p') L fun a => Alike (Q a) where
  lost := by
    rintro s a s₁ hlost hr
    rw [lift_eq] at hr
    split at hr <;> cases hr
    exact h.lost s.1 a _ hlost ‹_›
  follows := by
    rintro hn s s' ⟨hP, himports⟩
    have hends := h.follows hn s.1 s'.1 hP
    rw [lift_eq, lift_eq, himports]
    cases hr : p s.1 with
    | error e s₁ =>
      rw [hr] at hends
      intro hstrict
      rcases hends hstrict with hnesting | ⟨s₁', hr', hstop⟩
      · exact .inl hnesting
      · exact .inr ⟨(s₁', s.2), by rw [hr'], hstop⟩
    | ok a s₁ =>
      rw [hr] at hends
      rcases hends with hlost | ⟨howes, a', s₁', hr', hlike, hq⟩
      · exact .inl hlost
      · exact .inr ⟨howes, a', (s₁', s.2), by rw [hr'], hlike, hq, rfl⟩

/-! ### Imports -/

theorem pairs_importFailed (error : ImportError) (o : Nat) (ho : S.offset.like o o) :
    S.Pairs .plain (importFailed error o) (importFailed error o) := by
  intro t
  cases error with
  | cycle chain => exact agree_fatal (fun _ => rfl) _ _
  | broken location e => exact agree_fatal (fun _ => rfl) _ _
  | unreadable location reason => exact pairs_record ho _ _ t
  | tooDeep limit => exact pairs_record ho _ _ t

theorem pairs_takeOver [S.Exact] (loaded : ParsedModule) (location uri : String) (o : Nat)
    (ho : S.offset.like o o) :
    S.Pairs .plain (takeOver loaded location uri o) (takeOver loaded location uri o) := by
  refine fun t => .ite (fun _ => .then (pairs_record ho _ _ t) fun _ => .plain _) fun _ => ?_
  refine .then (pairs_amendGet _ t) fun clashes => ?_
  exact .then (agree_forIn (fun name => pairs_record ho _ _ t) clashes) fun _ => .plain _

/-- What is made of what a location yields. -/
def imported (found : Except ImportError ParsedModule) (location uri : String) (o : Nat) : Parser Unit :=
  match found with
  | .ok loaded => takeOver loaded location uri o
  | .error error => importFailed error o

theorem loadFrom_eq (importer : Importer σ) (uri : String) (o : Nat) (location : String)
    (s : ParserState × σ) : loadFrom importer uri o location s =
      lift (imported (importer.load location s.2).1 location uri o)
        (s.1, (importer.load location s.2).2) := by
  obtain ⟨s, imports⟩ := s
  unfold loadFrom
  dsimp only
  cases importer.load location imports with
  | mk found imports' => cases found <;> rfl

/-- Both runs get the same from a location, and their importer goes on in the same state. -/
theorem agree_loadFrom [S.Exact] (importer : Importer σ) (uri : String) (o : Nat) (ho : S.offset.like o o)
    (location : String) :
    S.Agree False (Alike (S.Near .behind)) (loadFrom importer uri o location)
      (loadFrom importer uri o location) .plain fun _ => Alike (S.Near .behind) := by
  have himported (found : Except ImportError ParsedModule) :
      S.Agree False (Alike (S.Near .behind)) (lift (imported found location uri o) : ModuleParser σ Unit)
        (lift (imported found location uri o)) .plain fun _ => Alike (S.Near .behind) := by
    cases found with
    | ok loaded => exact agree_lift (pairs_takeOver loaded location uri o ho .behind)
    | error error => exact agree_lift (pairs_importFailed error o ho .behind)
  refine ⟨fun s a s₁ hlost hr => ?_, fun hn s s' ⟨hnear, himports⟩ => ?_⟩
  · rw [loadFrom_eq] at hr
    refine (himported _).lost _ a s₁ ?_ hr
    exact hlost
  · rw [loadFrom_eq, loadFrom_eq, himports]
    exact (himported _).follows hn (s.1, _) (s'.1, _) ⟨hnear, rfl⟩

theorem agree_loadImport [S.Exact] (importer : Option (Importer σ)) (library : ModuleImport) (o : Nat)
    (ho : S.offset.like o o) :
    S.Agree False (Alike (S.Near .behind)) (loadImport importer library o) (loadImport importer library o)
      .plain fun _ => Alike (S.Near .behind) := by
  cases importer with
  | none => exact .plain _
  | some importer =>
    let locate (s : ParserState × σ) : List String :=
      importer.locate library.targetNamespace library.locations s.1.module s.2
    have hlocate (s s' : ParserState × σ) (h : Alike (S.Near .behind) s s') : locate s = locate s' := by
      change importer.locate _ _ s.1.module s.2 = importer.locate _ _ s'.1.module s'.2
      rw [h.1.module, h.2]
    let load (locations : List String) : ModuleParser σ Unit := do
      if locations.isEmpty then
        lift (record .moduleNotFound o
          ("no module found for namespace '" ++ library.targetNamespace ++ "'"))
      for location in locations do
        loadFrom importer library.targetNamespace o location
    have hload (locations locations' : List String) (hl : locations = locations') :
        S.Agree False (Alike (S.Near .behind)) (load locations) (load locations') .plain
          fun _ => Alike (S.Near .behind) := by
      subst hl
      have hloop : S.Agree False (Alike (S.Near .behind))
          (do
            for location in locations do
              loadFrom importer library.targetNamespace o location)
          (do
            for location in locations do
              loadFrom importer library.targetNamespace o location)
          .plain fun _ => Alike (S.Near .behind) :=
        .then (agree_forIn (agree_loadFrom importer _ o ho) locations) fun _ => .plain _
      exact .ite (fun _ => .then (agree_lift (pairs_record ho _ _ .behind)) fun _ => hloop) fun _ => hloop
    exact Agree.look (L := .plain) hlocate hload

/-! ### Prologs -/

variable [S.Exact] (hs : S.still)
include hs

/-- Whatever has been read of a prolog, its rest is the same in both runs. -/
theorem agree_declarationsWithin (importer : Option (Importer σ)) {n n' : Nat} (hn : S.rounds.like n n')
    (part : Section) :
    S.Agree False (Alike (S.Near .behind)) (declarationsWithin importer n part)
      (declarationsWithin importer n' part) S.declarations fun _ => Alike (S.Near .behind) := by
  induction n generalizing n' part with
  | zero =>
    refine ⟨fun _ _ _ _ hr => (nomatch hr), fun _ s s' h hstrict => ?_⟩
    rw [hn.2 hstrict]
    exact .inr ⟨s', rfl, h.1.recorded, h.1.module⟩
  | succ n ih =>
    obtain ⟨m, rfl, hm⟩ := rounds_succ hn
    refine .andThen (agree_lift (agree_declarationHead hs)) ?_
    rintro _ _ (@⟨head, _, hhead⟩ | _)
    rotate_left
    · exact .give rfl (by simp)
    obtain rfl : head = _ := hhead
    have ho := offset_refl hs head.decl.offset
    dsimp -zeta only
    extract_lets further rest further' rest'
    have hfurther (u : Unit) : S.Agree (S.declaration.owes head.decl.kind) (Alike (S.Near .behind))
        (further u) (further' u) S.declarations fun _ => Alike (S.Near .behind) := by
      refine .bind (ih hm _) ?_
      rintro ds _ rfl
      exact .give rfl (by simp)
    have hrest (u : Unit) : S.Agree (S.declaration.owes head.decl.kind) (Alike (S.Near .behind))
        (rest u) (rest' u) S.declarations fun _ => Alike (S.Near .behind) := by
      refine .then (agree_lift (agree_expect S.core_kept)) fun _ => .ite (fun _ => ?_) fun _ => hfurther ()
      exact .then (agree_lift (pairs_record ho _ _ .behind)) hfurther
    refine .shows (K := S.declaration.owes head.decl.kind) ?_ (by simp)
    split
    · exact .then (agree_loadImport importer _ _ ho) hrest
    · exact hrest ()

theorem agree_prolog (importer : Option (Importer σ)) (version : Option VersionDecl) :
    S.Agree False (Alike (S.Near .behind)) (prolog importer version) (prolog importer version)
      (.same fun p => S.declarations.owes p.declarations) fun _ => Alike (S.Near .behind) := by
  have hsteps (s s' : ParserState × σ) (h : Alike (S.Near .behind) s s') :
      S.rounds.like s.1.steps s'.1.steps := rounds_like h.1
  refine Agree.look hsteps fun n n' hn => .andThen (agree_declarationsWithin hs importer hn .setup) ?_
  rintro ds _ rfl
  exact .give rfl Iff.rfl

/-! ### Modules -/

omit [S.Exact] in
theorem pairs_checkVersion (decl : VersionDecl) :
    S.Pairs .plain (checkVersion decl) (checkVersion decl) := by
  have ho := offset_refl hs decl.offset
  intro t
  unfold checkVersion
  extract_lets finish checkEncoding
  have hfinish (u : Unit) : S.Agree False (S.Near t) (finish u) (finish u) .plain fun _ => S.Near t :=
    .then (agree_expect S.core_kept) fun _ => .plain _
  have hencoding (u : Unit) : S.Agree False (S.Near t) (checkEncoding u) (checkEncoding u) .plain
      fun _ => S.Near t := by
    dsimp only [checkEncoding]
    split
    · refine .ite (fun _ => ?_) fun _ => .then (pairs_record ho _ _ t) hfinish
      exact .then (pairs_warn ho _ _ t) hfinish
    · exact hfinish ()
  split
  · exact .ite (fun _ => .then (pairs_record ho _ _ t) hencoding) fun _ => hencoding ()
  · exact hencoding ()

omit [S.Exact] in
theorem pairs_versionDecl : S.Pairs .plain versionDecl versionDecl := by
  refine fun t => agree_ifReads S.core_kept ?_ (agree_ifReads S.core_kept ?_ (.plain _))
  · refine .seq agree_start fun o o' ho => .then (agree_capturedString 0) fun version => .settle (t := t) ?_
    obtain rfl := eq_of_like_offset hs ho
    refine .then (agree_whenCaptures S.core_kept fun c => c.string 0) fun encoding => ?_
    exact .then (pairs_checkVersion hs _ t) fun _ => .plain _
  · refine .seq agree_start fun o o' ho => .then (agree_capturedString 0) fun encoding => .settle (t := t) ?_
    obtain rfl := eq_of_like_offset hs ho
    exact .then (pairs_checkVersion hs _ t) fun _ => .plain _

theorem agree_mainModule (importer : Option (Importer σ)) (version : Option VersionDecl) :
    S.Agree False (Alike (S.Near .behind)) (mainModule importer version) (mainModule importer version)
      S.module fun _ => Alike (S.Near .behind) := by
  refine .andThen (agree_prolog hs importer version) ?_
  rintro declarations _ rfl
  refine .bind (agree_lift (pairs_queryBody pairs_exprSingle .behind)) fun body body' hb => ?_
  obtain rfl := eq_of_like_expr hs hb
  refine .then (agree_lift (pairs_expectEnd .behind)) fun _ => .give rfl ?_
  simp [owes_module, Module.prolog, Module.body?, Likeness.option]

theorem pairs_libraryHeader (hasLocation : Bool) :
    S.Pairs .plain (libraryHeader hasLocation) (libraryHeader hasLocation) := by
  refine fun t => .then (fresh_expect S.core_kept) fun _ => .seq agree_start fun o o' ho => ?_
  obtain rfl := eq_of_like_offset hs ho
  refine .settle (t := t) (.then (fresh_expect S.core_kept) fun _ => .then (agree_capturedName 0) fun qualifier => ?_)
  refine .then (agree_capturedString 1) fun uri => .settle (t := t) (agree_recordIf ho ?_)
  refine .then (pairs_checkBinding ho qualifier uri t) fun _ => .then (pairs_amend _ t) fun _ => ?_
  refine Agree.then (Q := fun _ => S.Near t) (agree_modify (fun _ _ h => h) fun s s' h => ?_) fun _ =>
    .then (agree_expect S.core_kept) fun _ => .plain _
  exact { h with
    declaredPrefixes := fun _ => congrArg (qualifier :: ·) (h.declaredPrefixes Exact.exact)
    module := by rw [h.module]
    libraryNamespace := fun _ => rfl }

theorem agree_libraryModule (importer : Option (Importer σ)) (hasLocation : Bool)
    (version : Option VersionDecl) :
    S.Agree False (Alike (S.Near .behind)) (libraryModule importer hasLocation version)
      (libraryModule importer hasLocation version) S.module fun _ => Alike (S.Near .behind) := by
  refine .then (agree_lift (pairs_libraryHeader hs hasLocation .behind)) fun ⟨qualifier, uri⟩ => ?_
  refine .andThen (agree_prolog hs importer version) ?_
  rintro declarations _ rfl
  refine .then (agree_lift (pairs_expectEnd .behind)) fun _ => .give rfl ?_
  simp [owes_module, Module.prolog, Module.body?, Likeness.option]

theorem agree_moduleUnit (importer : Option (Importer σ)) (kind : Option ModuleKind)
    (hasLocation : Bool) :
    S.Agree False (Alike (S.Near .behind)) (moduleUnit importer kind hasLocation)
      (moduleUnit importer kind hasLocation) S.module fun _ => Alike (S.Near .behind) := by
  refine .then (agree_lift (pairs_versionDecl hs .behind)) fun version => ?_
  have hpeek : S.Agree False (S.Near .behind) (peek Terminal.moduleDecl) (peek Terminal.moduleDecl)
      .plain fun _ => S.Near .behind := by
    refine (agree_peek rfl).post ?_
    rintro (_ | _) _ _ h
    · exact h
    · exact Near.fresh_seen h
  refine .then (agree_lift hpeek) fun isLibrary => ?_
  split
  · refine agree_lift (.seq (pairs_nextOffset .behind) fun o o' ho => ?_)
    exact agree_fatal (fun hstrict => eq_of_offset ho hstrict) _ _
  · exact agree_libraryModule hs importer hasLocation version
  · exact agree_libraryModule hs importer hasLocation version
  · exact agree_mainModule hs importer version

end XQuerySyntax.Grammar

namespace XQuerySyntax

open Grammar Comparison

variable {S : Comparison} {text : String} {config config' : Config}

/-! ### Whole parses -/

/-- An expression that the first run returns shows the dropped extension, or the second run returns the
same. -/
theorem parseExpression_follows (hs : S.still)
    (h : S.Near .behind (.ofText text config) (.ofText text config')) {e : Expr}
    (hr : parseExpression text config = .ok e) :
    S.on ∨ ¬S.expr.owes e ∧ parseExpression text config' = .ok e := by
  have hagree := (pairs_expressionUnit .behind).follows not_false _ _ h
  unfold parseExpression at hr ⊢
  cases hunit : expressionUnit (.ofText text config) <;> rw [hunit] at hr hagree <;> cases hr
  rcases hagree with ⟨hon, -⟩ | ⟨howes, e', s', hunit', hlike, -⟩
  · exact .inl hon
  · rw [hunit', eq_of_like_expr hs hlike]
    exact .inr ⟨howes, rfl⟩

/-- A module that the first run returns shows the dropped extension, or something has been dropped from
it, or the second run returns the same. -/
theorem parseModuleWith_follows [S.Exact] {σ : Type} (importer : Option (Importer σ)) (kind : Option ModuleKind)
    (imports : σ) (hs : S.still) (h : S.Near .behind (.ofText text config) (.ofText text config'))
    (hlocation : config'.sourceUri = config.sourceUri) {m : ParsedModule} {imports' : σ}
    (hr : parseModuleWith importer kind text config imports = (.ok m, imports')) :
    (S.on ∧ (S.module.owes m.module ∨
      ∃ d ∈ m.diagnostics, d.code = .namespaceAttributeNotLiteral)) ∨
    ¬S.module.owes m.module ∧
      parseModuleWith importer kind text config' imports = (.ok m, imports') := by
  have hagree := (agree_moduleUnit hs importer kind config.sourceUri.isSome).follows not_false
    (.ofText text config, imports) (.ofText text config', imports) ⟨h, rfl⟩
  unfold parseModuleWith at hr ⊢
  rw [hlocation]
  cases hunit : moduleUnit importer kind config.sourceUri.isSome (.ofText text config, imports) <;>
    rw [hunit] at hr hagree <;> cases hr
  rcases hagree with hlost | ⟨howes, m', s', hunit', hlike, hnear, himports⟩
  · exact .inl hlost
  · obtain rfl : m' = _ := Eq.symm hlike
    refine .inr ⟨howes, ?_⟩
    rw [hunit']
    dsimp only
    rw [hnear.module, hnear.context.eq, hnear.recorded.eq_of_still hs, himports]

end XQuerySyntax
