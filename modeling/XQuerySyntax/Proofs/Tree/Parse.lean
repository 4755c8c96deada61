import XQuerySyntax.Proofs.Tree.Module

/-! What whole parses yield: well-formed trees, whose places and those of all diagnostics lie between
characters of the text that is parsed. -/

namespace XQuerySyntax

open Grammar

variable {text : String} {config : Config}

/-- What the tree of a text comes from, unless it is a library that names itself. -/
def Origin.ofText (text : String) (config : Config) : Origin where
  text := text
  module := .ofLocation? config.sourceUri
  limit := config.maxDepth

theorem ParserState.within_ofText {known : StaticContext → Prop} (h : known (.ofConfig config)) :
    (ParserState.ofText text config).Within (.ofText text config) 0 known where
  scan := .ofText text config.extensions
  module := rfl
  limit := rfl
  depth := rfl
  context := h
  recorded _ h := nomatch h

/-- The diagnostics of a failed parse lie between characters of the text. -/
structure ParseError.PlacedIn (text : String) (e : ParseError) : Prop where
  diagnostic : IsBoundary text e.diagnostic.offset
  recorded : ∀ r ∈ e.recorded, IsBoundary text r.offset

theorem exists_ok_of_any {ε α : Type} {r : Except ε α} (test : α → Bool) (h : r.toOption.any test) :
    ∃ a, r = .ok a ∧ test a := by
  cases r with
  | ok a => exact ⟨a, rfl, h⟩
  | error e => cases h

/-! ### Expressions -/

theorem contract_expressionUnit (text : String) (config : Config) :
    Ends (fun (e : Expr) _ => e.IsOperand (.ofText text config)) (Faulty text)
      (expressionUnit (.ofText text config)) :=
  Contract.weaken (yields_expressionUnit (.of (.ofConfig config))) (fun _ hs => hs)
    (fun _ _ hs => hs.context.1) _ (ParserState.within_ofText (.refl _))

theorem isOperand_of_parseExpression {e : Expr} (h : parseExpression text config = .ok e) :
    e.IsOperand (.ofText text config) := by
  have hends := contract_expressionUnit text config
  unfold parseExpression at h
  cases hr : expressionUnit (.ofText text config) <;> rw [hr] at h hends <;> cases h
  exact hends

theorem placedIn_of_parseExpression {e : ParseError} (h : parseExpression text config = .error e) :
    e.PlacedIn text := by
  have hends := contract_expressionUnit text config
  unfold parseExpression at h
  cases hr : expressionUnit (.ofText text config) <;> rw [hr] at h hends <;> cases h
  exact ⟨hends.offset, hends.recorded⟩

/-! ### Modules -/

/-- A module whose imports are not loaded, parsed with nothing carried along. -/
theorem fst_parseModuleWith (kind : Option ModuleKind) (text : String) (config : Config) :
    (parseModuleWith (none : Option (Importer Unit)) kind text config ()).1 = parseModule kind text config := rfl

theorem parseModuleWith_of_ok {kind : Option ModuleKind} {m : ParsedModule}
    (h : parseModule kind text config = .ok m) :
    parseModuleWith (none : Option (Importer Unit)) kind text config () = (.ok m, ()) := Prod.ext h rfl

/-- The state before the first of some characters. -/
def ParserState.ofChars (chars : List Char) (config : Config) : ParserState :=
  { ParserState.ofText "" config with
    scan := ⟨⟨byteLength chars, chars, chars⟩, .ofState .expression, [], chars, config.extensions, 0⟩ }

/-- Parses a module that is given as characters, without loading what it imports. -/
def parseCharacters (kind : Option ModuleKind) (chars : List Char) (config : Config) :
    Except ParseError ParsedModule :=
  match moduleUnit (none : Option (Importer Unit)) kind config.sourceUri.isSome (.ofChars chars config, ()) with
  | .ok m (s, _) => .ok ⟨s.module, m, s.context, s.recorded⟩
  | .error stop (s, _) => .error (Grammar.parseError stop s)

/-- A text matters by its characters alone. -/
theorem parseModule_eq (kind : Option ModuleKind) (text : String) (config : Config) :
    parseModule kind text config = parseCharacters kind text.toList config := by
  unfold parseModule parseModuleWith parseCharacters
  rw [show ParserState.ofText text config = .ofChars text.toList config by rfl]
  cases moduleUnit (none : Option (Importer Unit)) kind config.sourceUri.isSome
    (.ofChars text.toList config, ()) <;> rfl

section

variable {σ : Type} {importer : Option (Importer σ)} {kind : Option ModuleKind} {imports : σ}

theorem contract_parse (importer : Option (Importer σ)) (kind : Option ModuleKind) (text : String)
    (config : Config) (imports : σ) :
    Ends (fun m s => ∃ id, s.1.Within ⟨text, id, config.maxDepth⟩ 0
        (Parsed ⟨text, id, config.maxDepth⟩ (importer = none) (.ofConfig config) m))
      (fun e s => Faulty text e s.1)
      (moduleUnit importer kind config.sourceUri.isSome (.ofText text config, imports)) :=
  contract_moduleUnit (o := .ofText text config) importer kind _ _
    (ParserState.within_ofText Knowledge.when_refl)

/-- A parsed module is sound, with the name that it has at the end. Its context is that of its
declarations, but for the signatures if it loads modules. -/
structure ParsedModule.Sound (text : String) (config : Config) (alone : Prop) (m : ParsedModule) :
    Prop where
  module : m.module.Sound ⟨text, m.id, config.maxDepth⟩
  context : alone →
    ((m.module.contextBefore (.ofConfig config)).declareInOrder m.module.declared).Agrees m.context
  settings : ((m.module.contextBefore (.ofConfig config)).declareInOrder m.module.declared).unsigned.Agrees
    m.context.unsigned
  diagnostics : ∀ r ∈ m.diagnostics, IsBoundary text r.offset

theorem sound_of_parseModuleWith {m : ParsedModule}
    (h : (parseModuleWith importer kind text config imports).1 = .ok m) :
    m.Sound text config (importer = none) := by
  have hends := contract_parse importer kind text config imports
  unfold parseModuleWith at h
  cases hr : moduleUnit importer kind config.sourceUri.isSome (.ofText text config, imports) <;>
    rw [hr] at h hends <;> cases h
  obtain ⟨id, hs⟩ := hends
  obtain rfl : _ = id := hs.module
  exact ⟨hs.context.1, hs.context.2.1, hs.context.2.2, hs.recorded⟩

theorem placedIn_of_parseModuleWith {e : ParseError}
    (h : (parseModuleWith importer kind text config imports).1 = .error e) : e.PlacedIn text := by
  have hends := contract_parse importer kind text config imports
  unfold parseModuleWith at h
  cases hr : moduleUnit importer kind config.sourceUri.isSome (.ofText text config, imports) <;>
    rw [hr] at h hends <;> cases h
  exact ⟨hends.offset, hends.recorded⟩

end

/-! ### Well-formed trees -/

/-- The places of a node lie between characters of a text: its own, those of its bindings and
attributes, and those of the constants in its match options. Nodes and constants belong to a module. -/
structure Expr.PlacedIn (text : String) (id : ModuleId) (n : Expr) : Prop where
  offset : IsBoundary text n.offset
  module : n.module = id
  places : ∀ place ∈ n.kind.places, IsBoundary text place
  constants : ∀ options ∈ n.kind.matchOptions, ∀ k ∈ options.constants,
    IsBoundary text k.offset ∧ k.module = id

/-- The places of a module lie between characters of a text, and its nodes belong to it. -/
structure Module.PlacedIn (text : String) (id : ModuleId) (m : Module) : Prop where
  version : ∀ v ∈ m.prolog.version, IsBoundary text v.offset
  declarations : ∀ d ∈ m.prolog.declarations, IsBoundary text d.offset
  nodes : ∀ n ∈ m.nodes, n.PlacedIn text id
  constants : ∀ options ∈ m.matchOptions, ∀ k ∈ options.constants,
    IsBoundary text k.offset ∧ k.module = id

theorem Expr.SoundNode.placedIn {o : Origin} {n : Expr} (h : n.SoundNode o) :
    n.PlacedIn o.text o.module :=
  ⟨h.offset, h.module, h.places, fun options ho => (h.options options ho).constants⟩

theorem Module.Sound.placedIn {o : Origin} {m : Module} (h : m.Sound o) :
    m.PlacedIn o.text o.module where
  version := h.version
  declarations d hd := (h.declarations d hd).1
  nodes n hn := (h.nodes n hn).placedIn
  constants options ho := (h.options options ho).constants

/-- Whatever is parsed and imported, and whether or not it parses: every place in the tree and of a
diagnostic lies between characters of the text, and every node belongs to the module. -/
theorem places_lie_between_characters :
    (∀ text config, match parseExpression text config with
      | .ok e => ∀ n ∈ e.nodes, n.PlacedIn text (.ofLocation? config.sourceUri)
      | .error err => err.PlacedIn text) ∧
    (∀ (σ : Type) (importer : Option (Importer σ)) kind text config imports,
      match (parseModuleWith importer kind text config imports).1 with
      | .ok m => m.module.PlacedIn text m.id ∧ ∀ r ∈ m.diagnostics, IsBoundary text r.offset
      | .error err => err.PlacedIn text) := by
  refine ⟨fun text config => ?_, fun σ importer kind text config imports => ?_⟩
  · cases h : parseExpression text config with
    | ok e => exact fun n hn => ((isOperand_of_parseExpression h).sound n hn).placedIn
    | error err => exact placedIn_of_parseExpression h
  · cases h : (parseModuleWith importer kind text config imports).1 with
    | ok m =>
      have hm := sound_of_parseModuleWith h
      exact ⟨hm.module.placedIn, hm.diagnostics⟩
    | error err => exact placedIn_of_parseModuleWith h

end XQuerySyntax

/-! ### The limit on nesting and sequence types

A sequence type inside another one is a level deeper, and at the limit none is read. Item types in
parentheses are read without a new level, so the limit does not bound how deep they nest. -/

namespace XQuerySyntax

open XQuerySyntax.Parser Grammar

mutual

/-- The number of item types inside one another, those in parentheses included. -/
def SequenceType.nesting : SequenceType → Nat
  | .mk .emptySequence _ => 0
  | .mk itemType _ => itemType.nesting

/-- The same of an item type, which counts itself. -/
def ItemType.nesting : ItemType → Nat
  | .functionTest params returnType => max (SequenceType.nestingOfAll params) returnType.nesting + 1
  | .parenthesized inner => inner.nesting + 1
  | _ => 1

/-- The largest nesting of several sequence types. -/
def SequenceType.nestingOfAll : List SequenceType → Nat
  | [] => 0
  | t :: ts => max t.nesting (SequenceType.nestingOfAll ts)

end

/-- How a parse stops that nests too deep. -/
def ParserState.tooDeep (s : ParserState) : Stop :=
  .fatal (.error .implementationLimit s.scan.nextOffset
    ("expression nesting exceeds " ++ toString s.maxDepth ++ " levels"))

/-- At the limit nothing is read that is nested. -/
theorem Parser.nested_at_limit {α : Type} (p : Parser α) {s : ParserState}
    (h : s.maxDepth ≤ s.depth) : nested p s = .error s.tooDeep { s with depth := s.depth + 1 } := by
  have hlimit : s.depth + 1 > s.maxDepth := Nat.lt_succ_of_le h
  change (if s.depth + 1 > s.maxDepth then _ else _ : Parser α) _ = _
  rw [if_pos hlimit]
  rfl

/-- At the limit no sequence type is read but that of the empty sequence, whose test may find a fault
in the text. -/
theorem Grammar.sequenceType_at_limit (resume : LexicalState) {s : ParserState}
    (hd : s.maxDepth ≤ s.depth) :
    Ends (fun t _ => t = .single .emptySequence)
      (fun stop _ => stop = s.tooDeep ∨ ∃ s', eat Terminal.emptySequence
        { s with scan := s.scan.goto .kindTest } = .error stop s')
      (sequenceType resume s) := by
  let s₁ : ParserState := { s with scan := s.scan.goto .kindTest }
  let fail (stop : Stop) (_ : ParserState) : Prop :=
    stop = s.tooDeep ∨ ∃ s', eat Terminal.emptySequence s₁ = .error stop s'
  have hgoto : Contract (· = s) (goto .kindTest) (fun _ t => t = s₁) fail := by
    rintro _ rfl
    rfl
  -- A rule that does not match leaves the place and the depth as they are.
  have heat : Contract (· = s₁) (eat Terminal.emptySequence)
      (fun matched t => matched ∨ t.tooDeep = s.tooDeep ∧ t.maxDepth ≤ t.depth) fail := by
    rintro _ rfl
    unfold eat scan
    obtain ⟨m, h, -⟩ | ⟨_, h, captures, rfl⟩ | ⟨e, m, h, -⟩ :=
      Scan.eat_cases Terminal.emptySequence s₁.scan <;> rw [h]
    · exact .inl rfl
    · exact .inr ⟨rfl, hd⟩
    · refine .inr ⟨{ s₁ with scan := m }, ?_⟩
      unfold eat scan
      rw [h]
  refine hgoto.bind (fun _ => heat.bind fun matched => ?_) s rfl
  refine Contract.ite (fun _ => ?_) fun hno => ?_
  · intro t _
    rfl
  · have hnested : Contract (fun t => matched ∨ t.tooDeep = s.tooDeep ∧ t.maxDepth ≤ t.depth)
        (nested itemType) (fun _ _ => False) fail := by
      rintro t (h | ⟨h, ht⟩)
      · exact absurd h hno
      · rw [nested_at_limit itemType ht, h]
        exact .inl rfl
    exact hnested.bind fun _ _ h => h.elim

/-- In every tree that a parse returns, each sequence type inside another one counts against the limit,
and where the limit is reached none is read: the parse stops with an error that says so. -/
theorem sequence_types_nest_within_limit (text : String) (config : Config) :
    (∀ e, parseExpression text config = .ok e →
      ∀ n ∈ e.nodes, ∀ t ∈ n.kind.types, t.depth ≤ config.maxDepth) ∧
    (∀ (σ : Type) (importer : Option (Importer σ)) kind imports m,
      (parseModuleWith importer kind text config imports).1 = .ok m →
      ∀ t ∈ m.module.types, t.depth ≤ config.maxDepth) ∧
    (∀ resume s, s.maxDepth ≤ s.depth →
      Ends (fun t _ => t = .single .emptySequence)
        (fun stop _ => stop = s.tooDeep ∨ ∃ s', eat Terminal.emptySequence
          { s with scan := s.scan.goto .kindTest } = .error stop s')
        (sequenceType resume s)) := by
  refine ⟨fun e h n hn t ht => ?_, fun σ importer kind imports m h t ht => ?_,
    fun resume s hd => sequenceType_at_limit resume hd⟩
  · exact (((isOperand_of_parseExpression h).sound n hn).types t ht).depth
  · exact ((sound_of_parseModuleWith h).module.types t ht).depth

/-- What comes of a type that fills the limit, and of one in more parentheses than the limit has levels. -/
theorem parsed_types :
    (parseExpression "1 instance of function(item()) as item()"
        { Config.standard with maxDepth := 3 }).toOption.any
        (fun e => e.nodes.any fun n => n.kind.types.any fun t => t.nesting = 2) ∧
      (parseExpression "1 instance of ((item()))" { Config.standard with maxDepth := 2 }).toOption.any
        (fun e => e.nodes.any fun n => n.kind.types.any fun t => 2 < t.nesting) := by
  decide +kernel

/-- A function test whose parameter fills the limit. -/
theorem function_test_nests_within_limit :
    ∃ e, parseExpression "1 instance of function(item()) as item()"
        { Config.standard with maxDepth := 3 } = .ok e ∧
      (∃ n ∈ e.nodes, ∃ t ∈ n.kind.types, t.nesting = 2) ∧
      ∀ n ∈ e.nodes, ∀ t ∈ n.kind.types, t.depth ≤ 3 := by
  obtain ⟨e, he, htest⟩ := exists_ok_of_any _ parsed_types.1
  simp only [List.any_eq_true, decide_eq_true_eq] at htest
  exact ⟨e, he, htest, (sequence_types_nest_within_limit _ _).1 e he⟩

/-- Behind an operator at the limit, an item type in two pairs of parentheses is read nevertheless. -/
theorem parentheses_nest_beyond_limit :
    ∃ e, parseExpression "1 instance of ((item()))" { Config.standard with maxDepth := 2 } = .ok e ∧
      ∃ n ∈ e.nodes, ∃ t ∈ n.kind.types, 2 < t.nesting := by
  obtain ⟨e, he, htest⟩ := exists_ok_of_any _ parsed_types.2
  simp only [List.any_eq_true, decide_eq_true_eq] at htest
  exact ⟨e, he, htest⟩

end XQuerySyntax
