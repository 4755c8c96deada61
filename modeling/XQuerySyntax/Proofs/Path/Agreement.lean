import XQuerySyntax.Proofs.Path.Step

/-! Paths are read as they are written, one step behind the other, and those that differ in abbreviations at
most have the same tree. A predicate may be any text that the parser reads between brackets, and a path is
such a text itself. -/

namespace XQuerySyntax

open XQuerySyntax.Parser Grammar Glimpse Scan

variable {f : Frame} {saved : List LexicalState} {text mid behind rest : List Char} {single : Parser Expr}
  {meaning : List Char → Expr}

/-! ### Slashes -/

theorem Joint.begins {joint : Joint} (h : Laid [joint.mark] text mid) : Begins [[.char '/']] text := by
  cases joint with
  | slash | doubleSlash =>
    cases h with
    | cons hspace hchars _ _ =>
      obtain ⟨-, rfl⟩ := hchars
      exact begins_token hspace List.mem_cons_self ⟨_, rfl, trivial⟩

/-- A slash in front of a step is not the first of two. -/
theorem begins_slash {s : WrittenStep} (h : Laid [.mark "/"] text mid) (hstep : s.Lays mid rest)
    (hrest : Begins behindPredicatesViews rest) : Begins [[.char '/', .unlike '/']] text := by
  have hother : ∀ c ∈ mid.head?, c ≠ '/' := (WrittenStep.begins hstep hrest).head_ne (by rfl) (by rfl) (by rfl)
  cases h with
  | cons hspace hchars _ htext =>
    cases htext
    obtain ⟨-, rfl⟩ := hchars
    exact begins_token hspace List.mem_cons_self ⟨_, rfl, hother⟩

/-- The steps that stand for a joint and the step behind it, as trees. -/
def Joint.trees (c : StaticContext) (module : ModuleId) (meaning : List Char → Expr)
    (entry : Joint × WrittenStep) : List Expr :=
  (entry.1.hidden ++ [entry.2]).map (·.tree c module meaning)

theorem reads_descendantStep (meaning : List Char → Expr) (l : Place) (offset : Nat) :
    Reads f l (descendantStep offset)
      (fun e => e.placeless = WrittenStep.descend.tree f.context f.module meaning) l := by
  refine reads_weaken (reads_node _ offset) fun e he => ?_
  rw [he, Expr.placeless, Expr.moved_mk]
  rfl

/-- A double slash adds one step to the step behind it, and a slash none. -/
theorem Joint.reads_furtherSteps {joint : Joint} {s : WrittenStep} (h : Laid [joint.mark] text mid)
    (hs : s.Fits f single meaning) (hstep : s.Lays mid rest) (hrest : Begins behindPredicatesViews rest)
    (hsize : text.length ≤ f.size) :
    Reads f (.behind saved text) (furtherSteps single)
      (fun o => ∃ es, o = some es ∧ es.map Expr.placeless = Joint.trees f.context f.module meaning (joint, s))
      (.behind saved rest) := by
  have hle := h.length_le
  have hread : Reads f (.before saved mid) (requiredStep single)
      (fun e => e.placeless = s.tree f.context f.module meaning) (.behind saved rest) :=
    reads_weaken (WrittenStep.reads_requiredStep hs hstep hrest (by omega)) fun e he => he.placeless_eq
  cases joint with
  | slash =>
    have hlaid : Laid [.mark "/"] text mid := h
    -- Two slashes are tried first, and a step begins with none.
    have hdecline : Declines .operator text Terminal.descendantsSeparator :=
      (begins_slash hlaid hstep hrest).declinesEvery (by rfl)
    obtain ⟨_, hnil, htake⟩ := hlaid.takes_mark .operator Terminal.slashSeparator rfl (by rfl)
    cases hnil
    apply reads_ifEat_declined hdecline
    apply reads_ifEat htake
    refine reads_forget (reads_bind hread fun e he => reads_pure ⟨[e], rfl, ?_⟩)
    rw [List.map_singleton, he]
    rfl
  | doubleSlash =>
    have hlaid : Laid [.mark "//"] text mid := h
    obtain ⟨_, hnil, htake⟩ := hlaid.takes_mark .operator Terminal.descendantsSeparator rfl (by rfl)
    cases hnil
    apply reads_ifEat htake
    refine reads_forget (reads_bind reads_start fun offset _ => ?_)
    -- The step that is left out comes first, and has no predicates.
    refine reads_bind (reads_descendantStep meaning _ offset) fun descend hdescend => ?_
    refine reads_bind hread fun e he => reads_pure ⟨[descend, e], rfl, ?_⟩
    rw [List.map_cons, List.map_singleton, he, hdescend]
    rfl

namespace JointsLay

variable {more : List (Joint × WrittenStep)}

theorem begins (h : JointsLay more text rest) (hrest : Begins closingViews rest) :
    Begins behindPredicatesViews text := by
  cases h with
  | nil => exact hrest.weaken (List.subset_append_left _ _)
  | cons hjoint _ _ => exact (Joint.begins hjoint).weaken (List.subset_append_right _ _)

/-- The induction is on the steps, each of which needs one more round of the loop. -/
theorem reads_within (h : JointsLay more text rest) (hrest : Begins closingViews rest)
    (hfits : ∀ entry ∈ more, entry.2.Fits f single meaning) (hsize : text.length ≤ f.size) (k : Nat)
    (hk : text.length < k) :
    Reads f (.behind saved text) (manyWithin (furtherSteps single) k)
      (fun steps => steps.flatten.map Expr.placeless = more.flatMap (Joint.trees f.context f.module meaning))
      (.behind saved rest) := by
  induction h generalizing k with
  | nil rest =>
    obtain ⟨k, rfl⟩ := Nat.exists_eq_add_of_lt (Nat.zero_lt_of_lt hk)
    -- What closes the path is no slash.
    have hdecline := hrest.declines_layer .primary
    have hnone : Reads f (.behind saved rest) (furtherSteps single) (fun o => o = none) (.behind saved rest) := by
      apply reads_ifEat_declined (hdecline Terminal.descendantsSeparator (by simp [Layer.rules]))
      apply reads_ifEat_declined (hdecline Terminal.slashSeparator (by simp [Layer.rules]))
      exact reads_pure rfl
    refine reads_weaken (reads_manyWithin_nil hnone) fun steps hsteps => ?_
    rw [hsteps]
    rfl
  | @cons joint s more text mid behind rest hjoint hstep hmore ih =>
    obtain ⟨k, rfl⟩ := Nat.exists_eq_add_of_lt (Nat.zero_lt_of_lt hk)
    have hjointLength := hjoint.length_le
    have hstepLength := WrittenStep.length_le hstep
    rw [List.length_singleton] at hjointLength
    have hs : s.Fits f single meaning := hfits _ List.mem_cons_self
    have hone : Reads f (.behind saved text) (furtherSteps single)
        (fun o => ∃ es, o = some es ∧ es.map Expr.placeless = Joint.trees f.context f.module meaning (joint, s))
        (.behind saved behind) := Joint.reads_furtherSteps hjoint hs hstep (hmore.begins hrest) hsize
    have hothers := ih hrest (fun entry hentry => hfits entry (List.mem_cons_of_mem _ hentry)) (by omega)
      (0 + k) (by omega)
    refine reads_weaken (reads_manyWithin_cons hone hothers) fun steps hsteps => ?_
    obtain ⟨es, others, rfl, hes, hothers⟩ := hsteps
    rw [List.flatten_cons, List.map_append, hes, hothers, List.flatMap_cons]

end JointsLay

/-! ### Paths -/

/-- The steps of a path in the tree are those read in front of it and those behind them. -/
theorem reads_relativePath {more : List (Joint × WrittenStep)} {origin : PathRoot} {first : List Expr}
    {trees : List Expr} (offset : Nat) (h : JointsLay more text rest) (hrest : Begins closingViews rest)
    (hfits : ∀ entry ∈ more, entry.2.Fits f single meaning) (hsize : text.length ≤ f.size)
    (hfirst : first.map Expr.placeless = trees)
    (hstep : origin = .relative → ∃ e axis test ps, first = [e] ∧ e.kind = .step axis test ps) :
    Reads f (.behind saved text) (relativePath single origin first offset)
      (fun e => e.placeless =
        .mk (.path origin (trees ++ more.flatMap (Joint.trees f.context f.module meaning))) 0 f.module)
      (.behind saved rest) := by
  refine reads_bind (reads_many (h.reads_within hrest hfits hsize (f.size + 1) (by omega)))
    fun steps hsteps => ?_
  -- Whatever the parser looks at below, a node of all steps is what it answers.
  have hnode : Reads f (.behind saved rest) (node (.path origin (first ++ steps.flatten)) offset)
      (fun e => e.placeless =
        .mk (.path origin (trees ++ more.flatMap (Joint.trees f.context f.module meaning))) 0 f.module)
      (.behind saved rest) := by
    refine reads_weaken (reads_node _ offset) fun e he => ?_
    rw [he, Expr.placeless, Expr.moved_mk, ← hfirst, ← hsteps, ← List.map_append]
    rfl
  generalize hall : first ++ steps.flatten = all at hnode ⊢
  dsimp only
  split
  · -- A relative path of one step is left without a node of its own, unless that is a step along an axis.
    rename_i step
    obtain ⟨e, axis, test, ps, rfl, hkind⟩ := hstep rfl
    obtain ⟨rfl, -⟩ := List.cons.inj hall
    rw [hkind]
    exact hnode
  · exact hnode

/-- A value is a single expression if something closes it. -/
theorem reads_closed {n : Nat} {P : Expr → Prop} (hdepth : f.depth < f.maxDepth)
    (hrest : Begins closingViews rest) (hrules : ∀ r ∈ keywordRules ++ signRules, Declines .expression text r)
    (h : Reads { f with depth := f.depth + 1 } (.before saved text) (valueExpr (singleWithin n)) P
      (.behind saved rest)) :
    Reads f (.before saved text) (singleWithin (n + 1)) P (.behind saved rest) := by
  have hbehind (layer : Layer) (_ : layer.rank ≤ Layer.or.rank) : ∀ r ∈ layer.rules, Declines .operator rest r :=
    hrest.declines_layer layer
  have hvalue : Reads { f with depth := f.depth + 1 } (.before saved text) (Layer.primary.parser n) P
      (.behind saved rest) := h
  have hor : Reads { f with depth := f.depth + 1 } (.before saved text) (Layer.or.parser n) P
      (.behind saved rest) :=
    Layer.reads_climb hbehind (by decide) (Nat.le_refl _)
      (fun _ r hr => hrules r (List.mem_append_right _ hr)) hvalue
  exact reads_nested hdepth (reads_singleOf (fun r hr => hrules r (List.mem_append_left _ hr)) hor)

/-- The rules that are tried in front of a path. -/
def valueFrontRules : List Rule :=
  keywordRules ++ signRules ++
    [Terminal.validateType, Terminal.validateMode, Terminal.validate, Terminal.pragmaOpen]

theorem valueFrontRules_decline :
    (valueFrontRules.all fun r => Scan.declinesEvery .expression r [[.char '/']]) = true := by
  rw [Scan.declinesEvery_eq]
  rfl

namespace WrittenPath

variable {p : WrittenPath} {c : StaticContext} {module : ModuleId} {space : List Char}

theorem tree_eq : p.tree c module meaning =
    .mk (.path p.root (((p.root.joints.flatMap Joint.hidden ++ [p.first]).map (·.tree c module meaning)) ++
      p.more.flatMap (Joint.trees c module meaning))) 0 module := by
  rw [tree, steps, List.append_cons, List.map_append, List.map_flatMap]
  rfl

/-- The names of the path resolve, and its predicates are read. -/
structure Fits (f : Frame) (single : Parser Expr) (meaning : List Char → Expr) (p : WrittenPath) : Prop where
  first : p.first.Fits f single meaning
  more : ∀ entry ∈ p.more, entry.2.Fits f single meaning

/-- A path begins with a slash or with its first step, and is taken for nothing else. -/
theorem declines_front (h : p.Lays text rest) (hrest : Begins closingViews rest) :
    ∀ r ∈ valueFrontRules, Declines .expression text r := by
  obtain ⟨inside, behind, hjoints, hfirst, hmore⟩ := h
  obtain ⟨origin, first, more⟩ := p
  cases origin with
  | relative =>
    cases hjoints
    have hrules := (WrittenStep.begins hfirst (hmore.begins hrest)).declines_rules operandRules_decline
    intro r hr
    refine hrules r ?_
    simp only [valueFrontRules, operandRules, valueRules, List.mem_append, List.mem_cons] at hr ⊢
    tauto
  | root =>
    have hslash : Laid [Joint.slash.mark] text inside := hjoints
    exact (Joint.begins hslash).declines_rules valueFrontRules_decline
  | rootDescendants =>
    have hslash : Laid [Joint.doubleSlash.mark] text inside := hjoints
    exact (Joint.begins hslash).declines_rules valueFrontRules_decline

theorem reads_pathExpr (hp : p.Fits f single meaning) (h : p.Lays text rest)
    (hrest : Begins closingViews rest) (hsize : text.length ≤ f.size) :
    Reads f (.before saved text) (pathExpr single)
      (fun e => e.placeless = p.tree f.context f.module meaning) (.behind saved rest) := by
  obtain ⟨inside, behind, hjoints, hfirst, hmore⟩ := h
  have hbehind := hmore.begins hrest
  have hinsideLength := hjoints.length_le
  have hfirstLength := WrittenStep.length_le hfirst
  have hstep : Reads f (.before saved inside) (requiredStep single) (p.first.Denotes f.context f.module meaning)
      (.behind saved behind) := WrittenStep.reads_requiredStep hp.first hfirst hbehind (by omega)
  obtain ⟨origin, first, more⟩ := p
  rw [tree_eq]
  cases origin with
  | relative =>
    cases hjoints
    -- The root is tried first, and the path begins with a step.
    have hrules := (WrittenStep.begins hfirst hbehind).declines_rules operandRules_decline
    apply reads_ifEat_declined (hrules Terminal.rootDescendants (by simp [operandRules, valueRules]))
    apply reads_ifEat_declined (hrules Terminal.rootSlash (by simp [operandRules, valueRules]))
    refine reads_bind hstep fun e he => ?_
    apply reads_relativePath e.offset hmore hrest hp.more (by omega)
    · rw [List.map_singleton, he.placeless_eq]
      rfl
    · intro _
      obtain ⟨offset, ps, rfl, -⟩ := he
      exact ⟨_, _, _, _, rfl, rfl⟩
  | root =>
    have hslash : Laid [.mark "/"] text inside := hjoints
    have hdecline : Declines .expression text Terminal.rootDescendants :=
      (begins_slash hslash hfirst hbehind).declinesEvery (by rfl)
    obtain ⟨_, hnil, htake⟩ := hslash.takes_mark .expression Terminal.rootSlash rfl (by rfl)
    cases hnil
    apply reads_ifEat_declined hdecline
    apply reads_ifEat htake
    refine reads_forget (reads_bind reads_start fun offset _ => ?_)
    refine reads_bind (WrittenStep.reads_stepExpr hp.first hfirst hbehind (by omega)) fun o ho => ?_
    obtain ⟨e, rfl, he⟩ := ho
    apply reads_relativePath offset hmore hrest hp.more (by omega)
    · rw [List.map_singleton, he.placeless_eq]
      rfl
    · intro h
      cases h
  | rootDescendants =>
    have hslash : Laid [.mark "//"] text inside := hjoints
    obtain ⟨_, hnil, htake⟩ := hslash.takes_mark .expression Terminal.rootDescendants rfl (by rfl)
    cases hnil
    apply reads_ifEat htake
    refine reads_forget (reads_bind reads_start fun offset _ => ?_)
    refine reads_bind (reads_descendantStep meaning _ offset) fun descend hdescend => ?_
    refine reads_bind hstep fun e he => ?_
    apply reads_relativePath offset hmore hrest hp.more (by omega)
    · rw [List.map_cons, List.map_singleton, hdescend, he.placeless_eq]
      rfl
    · intro h
      cases h

/-- A path is a single expression. -/
theorem reads_single {n : Nat} (hp : p.Fits { f with depth := f.depth + 1 } (singleWithin n) meaning)
    (hdepth : f.depth < f.maxDepth) (h : p.Lays text rest) (hrest : Begins closingViews rest)
    (hsize : text.length ≤ f.size) :
    Reads f (.before saved text) (singleWithin (n + 1))
      (fun e => e.placeless = p.tree f.context f.module meaning) (.behind saved rest) := by
  have hfront := declines_front h hrest
  refine reads_closed hdepth hrest (fun r hr => hfront r (List.mem_append_left _ hr)) ?_
  apply reads_ifEat_declined (hfront Terminal.validateType (by simp [valueFrontRules]))
  apply reads_ifEat_declined (hfront Terminal.validateMode (by simp [valueFrontRules]))
  apply reads_ifEat_declined (hfront Terminal.validate (by simp [valueFrontRules]))
  apply reads_ifPeek_declined (hfront Terminal.pragmaOpen (by simp [valueFrontRules]))
  exact reads_pathExpr hp h hrest hsize

end WrittenPath

/-! ### Predicates inside predicates -/

/-- Wherever as many more single expressions may be open, the parser reads the text between brackets. -/
def ReadsInBrackets (g : Frame) (opens : Nat) (predicate : List Char) (tree : Expr) : Prop :=
  ∀ depth size n : Nat, depth + opens ≤ g.maxDepth → predicate.length < n →
    ReadsPredicate { g with depth := depth, size := size } (singleWithin n) predicate tree

/-- A number is a predicate. -/
theorem readsInBrackets_integer (g : Frame) {value : Nat} {chars : List Char}
    (hvalue : value ≤ Numeral.maxInteger) (hchars : (Token.integer value).Spells chars) :
    ReadsInBrackets g 1 chars (.mk (.literal (.integer value)) 0 g.module) := by
  intro depth size n hdepth hlt saved rest hsize
  obtain ⟨n, rfl⟩ := Nat.exists_eq_add_of_lt (Nat.zero_lt_of_lt hlt)
  obtain ⟨hne, hdigits, rfl⟩ := hchars
  have hends : endsInteger (']' :: rest) := by
    rintro _ ⟨⟩
    decide
  have hclose := begins_bracket .nil rest
  have hcomma := hclose.declines_layer .sequence Terminal.comma List.mem_cons_self
  have hs : Shows true [.digit] (chars ++ ']' :: rest) := by
    obtain ⟨c, cs, rfl⟩ := List.exists_cons_of_ne_nil hne
    exact ⟨c, _, rfl, hdigits c List.mem_cons_self, trivial⟩
  have hdigit : Begins [[.digit]] (chars ++ ']' :: rest) := begins_token .nil List.mem_cons_self hs
  have hrules : ∀ r ∈ keywordRules ++ signRules ++ valueRules, Declines .expression (chars ++ ']' :: rest) r :=
    fun r hr => hdigit.declinesAt (List.all_eq_true.1 integerView_decline r hr)
  have htake : Takes .expression (chars ++ ']' :: rest) Terminal.numericLiteral (']' :: rest)
      [.number (.integer (Decimal.ofDigits chars))] := by
    have hitems : Terminal.numericLiteral.items = [.capture .number] := by rfl
    apply takes_of_accepts rfl rfl rfl rfl .nil (hs.settled rfl)
    rw [hitems]
    exact accepts_number (scanNumeral_append hne hdigits hends) (Numeral.value_integer hvalue) (accepts_nil _)
  refine ⟨[], .nil, reads_expr (reads_closed (Nat.lt_of_lt_of_le (Nat.lt_succ_self _) hdepth) hclose
    (fun r hr => hrules r (List.mem_append_left _ hr)) ?_) hcomma⟩
  -- The rest is as for any value: no predicate, call, step or operator comes behind the number.
  refine reads_weaken (reads_valueExpr_primary (fun r hr => hrules r (List.mem_append_right _ hr))
    (reads_primary_number htake) ?_ (hclose.declines_layer .primary)) ?_
  · rintro e ⟨offset, rfl⟩ axis test predicates hkind
    cases hkind
  · rintro e ⟨offset, rfl⟩
    exact Expr.moved_mk _ _ _

namespace WrittenPath

variable {p : WrittenPath} {g : Frame} {opens : Nat} {space : List Char}

/-- The names of a path resolve, and its predicates are read where so many more single expressions may be
open. -/
structure Readable (g : Frame) (opens : Nat) (meaning : List Char → Expr) (p : WrittenPath) : Prop where
  tests : ∀ t ∈ p.tests, t.WellWritten g.context
  predicates : ∀ q ∈ p.predicates, ReadsInBrackets g opens q (meaning q)

theorem Readable.fits (hp : p.Readable g opens meaning) {depth size n : Nat} (hdepth : depth + opens ≤ g.maxDepth)
    (hn : ∀ q ∈ p.predicates, q.length < n) :
    p.Fits { g with depth := depth, size := size } (singleWithin n) meaning := by
  have hpredicates : ∀ q ∈ p.predicates,
      ReadsPredicate { g with depth := depth, size := size } (singleWithin n) q (meaning q) :=
    fun q hq => hp.predicates q hq depth size n hdepth (hn q hq)
  constructor
  · exact ⟨hp.tests _ List.mem_cons_self, fun q hq => hpredicates q (List.mem_append_left _ hq)⟩
  · intro entry hentry
    refine ⟨hp.tests _ (List.mem_cons_of_mem _ (List.mem_map.2 ⟨entry, hentry, rfl⟩)), fun q hq => ?_⟩
    exact hpredicates q (List.mem_append_right _ (List.mem_flatMap.2 ⟨entry, hentry, hq⟩))

/-- A path is read as it is written. -/
theorem Readable.reads_single (hp : p.Readable g opens meaning) {depth size n : Nat}
    (hdepth : depth + (opens + 1) ≤ g.maxDepth) (h : p.Lays text rest) (hrest : Begins closingViews rest)
    (hsize : text.length ≤ size) (hn : ∀ q ∈ p.predicates, q.length < n) (saved : List LexicalState) :
    Reads { g with depth := depth, size := size } (.before saved text) (singleWithin (n + 1))
      (fun e => e.placeless = p.tree g.context g.module meaning) (.behind saved rest) :=
  have hinner : depth + 1 + opens ≤ g.maxDepth := by omega
  have hlt : depth < g.maxDepth := by omega
  WrittenPath.reads_single (hp.fits hinner hn) hlt h hrest hsize

/-- A path is itself a predicate, and one more single expression is open inside. -/
theorem Readable.inBrackets (hp : p.Readable g opens meaning) (hspace : Trivia space) (h : p.Lays text space) :
    ReadsInBrackets g (opens + 1) text (p.tree g.context g.module meaning) := by
  intro depth size n hdepth hlt saved rest hsize
  obtain ⟨n, rfl⟩ := Nat.exists_eq_add_of_lt (Nat.zero_lt_of_lt hlt)
  have hlays := append_right h (apart_bracket · rest)
  have hclose := begins_bracket hspace rest
  have hcomma := hclose.declines_layer .sequence Terminal.comma List.mem_cons_self
  refine ⟨space, hspace, reads_expr (hp.reads_single hdepth hlays hclose hsize (fun q hq => ?_) saved) hcomma⟩
  -- The limit of the path is enough for its predicates, which are shorter.
  have hpredicate := length_lt h q hq
  omega

/-- The tree of a text that is a path. -/
theorem Readable.parseExpression {source : String} {config : Config}
    (hp : p.Readable (wholeFrame source config) opens meaning) (hspace : Trivia space)
    (h : p.Lays source.toList space) (hopens : opens < config.maxDepth) :
    ∃ e, parseExpression source config = .ok e ∧
      e.placeless = p.tree (.ofConfig config) (.ofLocation? config.sourceUri) meaning := by
  have hend : Begins closingViews space :=
    ⟨space, [], [.stop], (List.append_nil space).symm, hspace, by simp [closingViews], rfl⟩
  have hcomma := hend.declines_layer .sequence Terminal.comma List.mem_cons_self
  have hsize := length_le_size source config
  have hdepth : 0 + (opens + 1) ≤ (wholeFrame source config).maxDepth := by
    change 0 + (opens + 1) ≤ config.maxDepth
    omega
  have hsingle := hp.reads_single hdepth h hend hsize
    (fun q hq => (length_lt h q hq).trans_le hsize) []
  exact parseExpression_of_reads hspace (reads_expr (OperatorTree.reads_exprSingle hsingle) hcomma)

end WrittenPath

/-! ### Abbreviations -/

/-- Paths that differ in abbreviations at most have the same tree up to where its nodes begin. Its steps are
those of the text in their order, with one more for each double slash, and a name without a qualifier has the
namespace of elements on every axis but those of attributes and of namespaces. The predicates may be any
texts that the parser reads between brackets; the paths themselves are such texts, wherever their names
resolve. -/
theorem abbreviations_leave_tree_of_path {p p' : WrittenPath} {source source' : String}
    {space space' : List Char} {config : Config} {opens : Nat} {meaning : List Char → Expr}
    (h : p.Lays source.toList space) (h' : p'.Lays source'.toList space') (hspace : Trivia space)
    (hspace' : Trivia space') (hsame : p.SameAs meaning p')
    (hp : p.Readable (wholeFrame source config) opens meaning)
    (hp' : p'.Readable (wholeFrame source' config) opens meaning) (hopens : opens < config.maxDepth) :
    (∃ e e', parseExpression source config = .ok e ∧ parseExpression source' config = .ok e' ∧
      e.placeless = e'.placeless ∧ e.placeless =
        .mk (.path p.root (p.steps.map (·.tree (.ofConfig config) (.ofLocation? config.sourceUri) meaning))) 0
          (.ofLocation? config.sourceUri)) ∧
    p.written.Sublist p.steps ∧ p.steps.length = p.written.length + p.joints.count .doubleSlash ∧
    ∀ g : Frame, p.Readable g opens meaning → p'.Readable g opens meaning →
      ReadsInBrackets g (opens + 1) source.toList (p.tree g.context g.module meaning) ∧
        ReadsInBrackets g (opens + 1) source'.toList (p.tree g.context g.module meaning) := by
  obtain ⟨e, hparse, he⟩ := hp.parseExpression hspace h hopens
  obtain ⟨e', hparse', he'⟩ := hp'.parseExpression hspace' h' hopens
  refine ⟨⟨e, e', hparse, hparse', ?_, he⟩, p.written_sublist_steps, p.length_steps, ?_⟩
  · rw [he, he', hsame.tree_eq]
  · intro g hg hg'
    refine ⟨hg.inBrackets hspace h, ?_⟩
    rw [hsame.tree_eq]
    exact hg'.inBrackets hspace' h'

/-- A name without a qualifier. -/
def StepTest.plain (name : String) : StepTest := .name ⟨none, name⟩

/-- A double slash between two names. -/
def WrittenPath.inner : WrittenPath :=
  ⟨.relative, ⟨.bare (.plain "b"), []⟩, [(.doubleSlash, ⟨.bare (.plain "c"), []⟩)]⟩

/-- A name with two predicates, an attribute, and the step to the parent. -/
def WrittenPath.outer (predicate : String) : WrittenPath :=
  ⟨.relative, ⟨.bare (.plain "a"), [predicate.toList, "1".toList]⟩,
    [(.slash, ⟨.attribute (.plain "d"), []⟩), (.slash, ⟨.parent, []⟩)]⟩

theorem StepTest.lays_plain {name : String} {rest : List Char} (hname : isName name.toList)
    (hrest : rest.head?.all fun c => !isNameChar c && (c != ':' && (c != '"' && c != '\''))) :
    (StepTest.plain name).Lays (name.toList ++ rest) rest := by
  have hchars : (Piece.name ⟨none, name, none⟩).Spells name.toList := by
    refine ⟨?_, rfl⟩
    simpa [QName.isLexical] using hname
  have hends : ∀ c ∈ rest.head?, isNameChar c = false ∧ c ≠ ':' ∧ c ≠ '"' ∧ c ≠ '\'' := by
    intro c hc
    simpa using (Option.all_eq_true _ _).1 hrest c hc
  exact Laid.cons .nil hchars ⟨fun c hc => (hends c hc).1, fun c hc => (hends c hc).2⟩ (.nil rest)

theorem Laid.axis (axis : Axis) {rest : List Char} (hrest : rest.head?.all (· != ':')) :
    Laid [.mark axis.name, .mark "::"] (axis.name.toList ++ ("::".toList ++ rest)) rest :=
  .cons_keyword axis.isKeyword_name (by rfl) (.cons_symbol (by decide) hrest (.nil rest))

theorem Laid.slash {rest : List Char} (hrest : rest.head?.all (· != ':')) :
    Laid [.mark "/"] ('/' :: rest) rest := .cons_symbol (by decide) hrest (.nil rest)

theorem StepTest.lays_node {rest : List Char} (hrest : rest.head?.all (· != ':')) :
    (StepTest.kind .anyKind).Lays ("node".toList ++ ("(".toList ++ (")".toList ++ rest))) rest := by
  have hclose : Laid [.mark ")"] (")".toList ++ rest) rest := .cons_symbol (by decide) hrest (.nil rest)
  have hopen : Laid [.mark "(", .mark ")"] ("(".toList ++ (")".toList ++ rest)) rest :=
    .cons_symbol (by decide) (by rfl) hclose
  have hnode : Laid [.mark "node", .mark "(", .mark ")"]
      ("node".toList ++ ("(".toList ++ (")".toList ++ rest))) rest :=
    .cons_keyword (by decide) (by rfl) hopen
  exact hnode

theorem WrittenPath.inner_lays : WrittenPath.inner.Lays "b//c".toList [] := by
  have hb : (StepTest.plain "b").Lays "b//c".toList "//c".toList := StepTest.lays_plain (by decide) (by decide)
  have hslashes : Laid [.mark "//"] "//c".toList "c".toList := .cons_symbol (by decide) (by decide) (.nil _)
  have hc : (StepTest.plain "c").Lays "c".toList [] := StepTest.lays_plain (by decide) (by decide)
  exact ⟨_, _, .nil _, ⟨_, hb, .nil _⟩, .cons hslashes ⟨_, hc, .nil _⟩ (.nil _)⟩

theorem WrittenPath.inner_expanded_lays :
    WrittenPath.inner.expanded.Lays "child::b/descendant-or-self::node()/child::c".toList [] := by
  have hb : (StepForm.full .child (.plain "b")).Lays
      "child::b/descendant-or-self::node()/child::c".toList "/descendant-or-self::node()/child::c".toList := by
    rw [String.toList_ofList, String.toList_ofList]
    exact ⟨_, .axis .child (by decide), StepTest.lays_plain (by decide) (by decide)⟩
  have hnode : (StepForm.full .descendantOrSelf (.kind .anyKind)).Lays
      "descendant-or-self::node()/child::c".toList "/child::c".toList := by
    rw [String.toList_ofList, String.toList_ofList]
    exact ⟨_, .axis .descendantOrSelf (by decide), StepTest.lays_node (by decide)⟩
  have hc : (StepForm.full .child (.plain "c")).Lays "child::c".toList [] :=
    ⟨_, .axis .child (by decide), StepTest.lays_plain (by decide) (by decide)⟩
  rw [String.toList_ofList] at hb hnode hc ⊢
  exact ⟨_, _, .nil _, ⟨_, hb, .nil _⟩, .cons (.slash (by decide)) ⟨_, hnode, .nil _⟩
    (.cons (.slash (by decide)) ⟨_, hc, .nil _⟩ (.nil _))⟩

theorem WrittenPath.outer_lays : (WrittenPath.outer "b//c").Lays "a[b//c][1]/@d/..".toList [] := by
  have ha : (StepTest.plain "a").Lays "a[b//c][1]/@d/..".toList "[b//c][1]/@d/..".toList :=
    StepTest.lays_plain (by decide) (by decide)
  have hbrackets : BracketsLay ["b//c".toList, "1".toList] "[b//c][1]/@d/..".toList "/@d/..".toList :=
    .cons .nil (.cons .nil (.nil _))
  have hd : (StepForm.attribute (.plain "d")).Lays "@d/..".toList "/..".toList :=
    ⟨_, .cons_symbol (by decide) (by decide) (.nil _), StepTest.lays_plain (by decide) (by decide)⟩
  have hdots : Laid [.mark ".."] "..".toList [] := .cons_symbol (by decide) (by decide) (.nil _)
  exact ⟨_, _, .nil _, ⟨_, ha, hbrackets⟩, .cons (.slash (by decide)) ⟨_, hd, .nil _⟩
    (.cons (.slash (by decide)) ⟨_, hdots, .nil _⟩ (.nil _))⟩

theorem WrittenPath.outer_expanded_lays :
    (WrittenPath.outer "child::b/descendant-or-self::node()/child::c").expanded.Lays
      "child::a[child::b/descendant-or-self::node()/child::c][1]/attribute::d/parent::node()".toList [] := by
  have ha : (StepForm.full .child (.plain "a")).Lays
      "child::a[child::b/descendant-or-self::node()/child::c][1]/attribute::d/parent::node()".toList
      "[child::b/descendant-or-self::node()/child::c][1]/attribute::d/parent::node()".toList := by
    rw [String.toList_ofList, String.toList_ofList]
    exact ⟨_, .axis .child (by decide), StepTest.lays_plain (by decide) (by decide)⟩
  have hbrackets : BracketsLay ["child::b/descendant-or-self::node()/child::c".toList, "1".toList]
      "[child::b/descendant-or-self::node()/child::c][1]/attribute::d/parent::node()".toList
      "/attribute::d/parent::node()".toList := by
    repeat rw [String.toList_ofList]
    exact .cons .nil (.cons .nil (.nil _))
  have hd : (StepForm.full .attribute (.plain "d")).Lays "attribute::d/parent::node()".toList
      "/parent::node()".toList := by
    rw [String.toList_ofList, String.toList_ofList]
    exact ⟨_, .axis .attribute (by decide), StepTest.lays_plain (by decide) (by decide)⟩
  have hparent : (StepForm.full .parent (.kind .anyKind)).Lays "parent::node()".toList [] := by
    rw [String.toList_ofList]
    exact ⟨_, .axis .parent (by decide), StepTest.lays_node (by decide)⟩
  repeat rw [String.toList_ofList] at hbrackets hd hparent
  exact ⟨_, _, .nil _, ⟨_, ha, hbrackets⟩, .cons (.slash (by decide)) ⟨_, hd, .nil _⟩
    (.cons (.slash (by decide)) ⟨_, hparent, .nil _⟩ (.nil _))⟩

/-- The trees of the predicates. -/
def WrittenPath.outerTrees (predicate : List Char) : Expr :=
  if predicate = "1".toList then .mk (.literal (.integer 1)) 0 (.ofLocation? none)
  else WrittenPath.inner.tree (.ofConfig .standard) (.ofLocation? none) default

theorem nested_path_is_abbreviated :
    (WrittenPath.outer "b//c").Lays "a[b//c][1]/@d/..".toList [] ∧
    (WrittenPath.outer "child::b/descendant-or-self::node()/child::c").expanded.Lays
      "child::a[child::b/descendant-or-self::node()/child::c][1]/attribute::d/parent::node()".toList [] ∧
    Trivia [] ∧
    (WrittenPath.outer "b//c").SameAs WrittenPath.outerTrees
      (WrittenPath.outer "child::b/descendant-or-self::node()/child::c").expanded ∧
    (WrittenPath.outer "b//c").Readable (wholeFrame "a[b//c][1]/@d/.." .standard) 1 WrittenPath.outerTrees ∧
    (WrittenPath.outer "child::b/descendant-or-self::node()/child::c").expanded.Readable
      (wholeFrame "child::a[child::b/descendant-or-self::node()/child::c][1]/attribute::d/parent::node()" .standard)
      1 WrittenPath.outerTrees ∧
    1 < Config.standard.maxDepth ∧
    ∃ e e', parseExpression "a[b//c][1]/@d/.." .standard = .ok e ∧
      parseExpression "child::a[child::b/descendant-or-self::node()/child::c][1]/attribute::d/parent::node()"
        .standard = .ok e' ∧ e.placeless = e'.placeless := by
  have hinner (g : Frame) : WrittenPath.inner.Readable g 0 default :=
    ⟨List.forall_mem_cons.2 ⟨trivial, List.forall_mem_singleton.2 trivial⟩, fun q hq => absurd hq List.not_mem_nil⟩
  have hexpanded (g : Frame) : WrittenPath.inner.expanded.Readable g 0 default :=
    ⟨List.forall_mem_cons.2 ⟨trivial, List.forall_mem_cons.2 ⟨.anyKind, List.forall_mem_singleton.2 trivial⟩⟩,
      fun q hq => absurd hq List.not_mem_nil⟩
  have hsame := WrittenPath.inner.sameAs_expanded default
  have hone (g : Frame) : ReadsInBrackets g 1 "1".toList (.mk (.literal (.integer 1)) 0 g.module) :=
    readsInBrackets_integer g (by decide) ⟨by decide, List.forall_mem_singleton.2 (by decide), by decide⟩
  have hnumber : WrittenPath.outerTrees "1".toList = .mk (.literal (.integer 1)) 0 (.ofLocation? none) :=
    if_pos rfl
  have hpath : WrittenPath.outerTrees "b//c".toList =
      WrittenPath.inner.tree (.ofConfig .standard) (.ofLocation? none) default := if_neg (by decide)
  have hpath' : WrittenPath.outerTrees "child::b/descendant-or-self::node()/child::c".toList =
      WrittenPath.inner.tree (.ofConfig .standard) (.ofLocation? none) default := if_neg (by decide)
  have hp : (WrittenPath.outer "b//c").Readable (wholeFrame "a[b//c][1]/@d/.." .standard) 1
      WrittenPath.outerTrees := by
    refine ⟨List.forall_mem_cons.2 ⟨trivial, List.forall_mem_cons.2 ⟨trivial, ?_⟩⟩,
      List.forall_mem_cons.2 ⟨?_, List.forall_mem_singleton.2 ?_⟩⟩
    · exact List.forall_mem_singleton.2 .anyKind
    · rw [hpath]
      exact (hinner _).inBrackets .nil WrittenPath.inner_lays
    · rw [hnumber]
      exact hone _
  have hp' : (WrittenPath.outer "child::b/descendant-or-self::node()/child::c").expanded.Readable
      (wholeFrame "child::a[child::b/descendant-or-self::node()/child::c][1]/attribute::d/parent::node()" .standard)
      1 WrittenPath.outerTrees := by
    refine ⟨List.forall_mem_cons.2 ⟨trivial, List.forall_mem_cons.2 ⟨trivial, ?_⟩⟩,
      List.forall_mem_cons.2 ⟨?_, List.forall_mem_singleton.2 ?_⟩⟩
    · exact List.forall_mem_singleton.2 .anyKind
    · rw [hpath', hsame.tree_eq]
      exact (hexpanded _).inBrackets .nil WrittenPath.inner_expanded_lays
    · rw [hnumber]
      exact hone _
  have htrees : ["b//c".toList, "1".toList].map WrittenPath.outerTrees =
      ["child::b/descendant-or-self::node()/child::c".toList, "1".toList].map WrittenPath.outerTrees := by
    simp only [List.map_cons, hpath, hpath']
  have hsteps : (WrittenPath.outer "b//c").SameAs WrittenPath.outerTrees
      (WrittenPath.outer "child::b/descendant-or-self::node()/child::c").expanded :=
    ⟨rfl, .cons ⟨rfl, htrees⟩ (.cons ⟨rfl, rfl⟩ (.cons ⟨rfl, rfl⟩ .nil))⟩
  have hopens : 1 < Config.standard.maxDepth := by decide
  obtain ⟨⟨e, e', hparse, hparse', heq, -⟩, -⟩ := abbreviations_leave_tree_of_path WrittenPath.outer_lays
    WrittenPath.outer_expanded_lays .nil .nil hsteps hp hp' hopens
  exact ⟨WrittenPath.outer_lays, WrittenPath.outer_expanded_lays, .nil, hsteps, hp, hp', hopens,
    e, e', hparse, hparse', heq⟩

end XQuerySyntax
