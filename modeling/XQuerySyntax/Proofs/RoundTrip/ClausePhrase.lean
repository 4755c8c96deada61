import XQuerySyntax.Proofs.Comparison.Moved
import XQuerySyntax.Proofs.RoundTrip.Phrase
import XQuerySyntax.Proofs.Tree.Shape
import XQuerySyntax.Proofs.RoundTrip.InstanceOf

/-! Queries of clauses over simple operands as they are written, what of them can be written where the
parser stands, and the parts that clauses are made of: operands, variables with their types, variables
behind a keyword, and lists with commas. Each part is read up to a piece that cannot go on with it. -/

namespace XQuerySyntax

/-! ### Operands -/

/-- The operands of a query: variables and integers. -/
inductive SimpleOperand where
  | varRef (name : QName)
  | integer (value : Nat)

namespace SimpleOperand

/-- The operand as an expression, with nothing said of where it stands. -/
def expr (module : ModuleId) : SimpleOperand → Expr
  | varRef name => .mk (.varRef name) 0 module
  | integer value => .mk (.literal (.integer value)) 0 module

/-- The operand as it is written. -/
def piece : SimpleOperand → Piece
  | varRef name => .varName name
  | integer value => .integer value

end SimpleOperand

/-! ### Printing -/

/-- A type with its keyword, if there is one. -/
def asPieces (type : Option SequenceType) : List Piece :=
  type.toList.flatMap fun t => .mark "as" :: t.pieces

/-- A variable behind a keyword, if there is one. -/
def behindWord (word : String) (name : Option QName) : List Piece :=
  name.toList.flatMap fun n => [.mark word, .varName n]

/-- What is between commas, with a comma in front of each. -/
def commaPieces {β : Type} (pieces : β → List Piece) (items : List β) : List Piece :=
  items.flatMap fun b => .mark "," :: pieces b

/-- What is between commas. -/
def listPieces {β : Type} (pieces : β → List Piece) : List β → List Piece
  | [] => []
  | b :: items => pieces b ++ commaPieces pieces items

/-- A variable that runs over a sequence. -/
def ForBinding.pieces (b : ForBinding SimpleOperand) : List Piece :=
  .varName b.name :: (asPieces b.typeDecl ++
    ((if b.allowingEmpty then marks ["allowing", "empty"] else []) ++
      (behindWord "at" b.positional ++ (behindWord "score" b.score ++ [.mark "in", b.source.piece]))))

/-- A variable bound to a value, without the words that tell that it takes a score. -/
def LetBinding.pieces (b : LetBinding SimpleOperand) : List Piece :=
  .varName b.name :: (asPieces b.typeDecl ++ [.mark ":=", b.value.piece])

/-- The condition of a window, with its variables. -/
def WindowCondition.pieces (w : WindowCondition SimpleOperand) : List Piece :=
  w.names.current.toList.map .varName ++ (behindWord "at" w.names.positional ++
    (behindWord "previous" w.names.previous ++ (behindWord "next" w.names.next ++
      [.mark "when", w.condition.piece])))

/-- The end of a window. -/
def WindowCondition.endPieces (w : WindowCondition SimpleOperand) : List Piece :=
  marks (if w.only then ["only", "end"] else ["end"]) ++ w.pieces

/-- The word that tells how a window moves. -/
def WindowKind.word : WindowKind → String
  | tumbling => "tumbling"
  | sliding => "sliding"

/-- A clause. -/
def Clause.pieces : Clause SimpleOperand → List Piece
  | forEach bindings => marks ["for"] ++ listPieces ForBinding.pieces bindings
  | letBe bindings =>
    marks (if bindings.head?.any LetBinding.score then ["let", "score"] else ["let"]) ++
      listPieces LetBinding.pieces bindings
  | window kind name type source start finish =>
    marks ["for", kind.word, "window"] ++ (.varName name :: (asPieces type ++
      (.mark "in" :: source.piece :: .mark "start" :: (start.pieces ++
        finish.toList.flatMap WindowCondition.endPieces))))
  | count name => [.mark "count", .varName name]
  | filter condition => [.mark "where", condition.piece]

/-- A collation, if there is one. -/
def collationPieces (collation : Option String) : List Piece :=
  collation.toList.flatMap fun c => [.mark "collation", .string c]

/-- A grouping key. -/
def GroupingSpec.pieces (g : GroupingSpec SimpleOperand) : List Piece :=
  .varName g.name :: ((g.value.toList.flatMap fun v => [.mark ":=", v.piece]) ++
    collationPieces g.collation)

/-- Where the empty sequence stands. -/
def EmptyOrder.word : EmptyOrder → String
  | greatest => "greatest"
  | least => "least"

/-- An ordering key. That it ascends may be said or not. -/
def OrderSpec.pieces (explicit : Bool) (s : OrderSpec SimpleOperand) : List Piece :=
  s.key.piece :: (marks (if s.descending then ["descending"] else if explicit then ["ascending"] else []) ++
    ((s.empty.toList.flatMap fun e => marks ["empty", e.word]) ++ collationPieces s.collation))

namespace Flwor

/-- The grouping and the clauses behind it. -/
def groupPieces (q : Flwor SimpleOperand) : List Piece :=
  if q.groupBy.isEmpty then []
  else marks ["group", "by"] ++ (listPieces GroupingSpec.pieces q.groupBy ++
    q.postGroup.flatMap Clause.pieces)

/-- The ordering, given which keys are said to ascend. -/
def orderPieces (explicit : Nat → Bool) (q : Flwor SimpleOperand) : List Piece :=
  if q.orderBy.isEmpty then []
  else marks (if q.stable then ["stable", "order", "by"] else ["order", "by"]) ++
    listPieces (fun s : OrderSpec SimpleOperand × Nat => s.1.pieces (explicit s.2)) q.orderBy.zipIdx

/-- A query: the clauses, the condition, the grouping with the clauses behind it, the ordering and the
result. -/
def pieces (explicit : Nat → Bool) (q : Flwor SimpleOperand) : List Piece :=
  q.clauses.flatMap Clause.pieces ++ ((q.condition.toList.flatMap fun c => (Clause.filter c).pieces) ++
    (q.groupPieces ++ (q.orderPieces explicit ++ [.mark "return", q.result.piece])))

end Flwor

/-! ### What can be written -/

/-- What the parser knows where a query stands: the namespaces, the extensions, and how many types may be
inside one another. -/
structure QueryScope where
  context : StaticContext
  extensions : Extensions
  levels : Nat

variable (scope : QueryScope)

/-- The operand is written in the scope: its name resolves, or its value is not too large. -/
def SimpleOperand.Fits : SimpleOperand → Prop
  | varRef name => name.ResolvesIn scope.context none
  | integer value => value ≤ Numeral.maxInteger

/-- A variable with its type fits into the scope. -/
structure VariableFits (name : QName) (type : Option SequenceType) : Prop where
  name : name.ResolvesIn scope.context none
  type : ∀ t ∈ type, t.WellWritten scope.context ∧ t.levels ≤ scope.levels

/-- The names and the type of the binding are those of the scope. Scores belong to an extension. -/
structure ForBinding.Fits (b : ForBinding SimpleOperand) : Prop where
  bound : VariableFits scope b.name b.typeDecl
  positional : ∀ n ∈ b.positional, n.ResolvesIn scope.context none
  score : ∀ n ∈ b.score, n.ResolvesIn scope.context none ∧ scope.extensions.fullText
  source : b.source.Fits scope

/-- A binding of a score has no type. -/
structure LetBinding.Fits (b : LetBinding SimpleOperand) : Prop where
  bound : VariableFits scope b.name b.typeDecl
  score : b.score → b.typeDecl = none ∧ scope.extensions.fullText
  value : b.value.Fits scope

/-- The names of a window condition resolve. -/
structure WindowCondition.Fits (w : WindowCondition SimpleOperand) : Prop where
  names : ∀ n ∈ w.names.names, n.ResolvesIn scope.context none
  condition : w.condition.Fits scope

/-- The parts of the clause fit into the scope. Only the first binding of a clause may take a score, and
only the end of a window may be one that it must have. -/
def Clause.Fits : Clause SimpleOperand → Prop
  | forEach bindings => ∀ b ∈ bindings, b.Fits scope
  | letBe bindings => (∀ b ∈ bindings, b.Fits scope) ∧ ∀ b ∈ bindings.tail, b.score = false
  | window _ name type source start finish =>
    VariableFits scope name type ∧ source.Fits scope ∧ (start.Fits scope ∧ start.only = false) ∧
      ∀ w ∈ finish, w.Fits scope
  | count name => name.ResolvesIn scope.context none
  | filter condition => condition.Fits scope

/-- The parts of the query fit into the scope. -/
structure Flwor.Fits (q : Flwor SimpleOperand) : Prop where
  clauses : ∀ c ∈ q.clauses ++ q.postGroup, c.Fits scope
  condition : ∀ c ∈ q.condition, c.Fits scope
  names : ∀ g ∈ q.groupBy, g.name.ResolvesIn scope.context none
  values : ∀ g ∈ q.groupBy, ∀ v ∈ g.value, v.Fits scope
  keys : ∀ s ∈ q.orderBy, s.key.Fits scope
  result : q.result.Fits scope

/-! ### Places left out -/

/-- The expression with nothing said of where its nodes stand. -/
def Expr.placeless (e : Expr) : Expr := e.moved fun _ => 0

/-- The query over expressions of a module, with nothing said of where they stand. -/
def Flwor.exprs (module : ModuleId) (q : Flwor SimpleOperand) : Flwor Expr :=
  q.map (SimpleOperand.expr module) fun _ => 0

end XQuerySyntax

namespace XQuerySyntax

open XQuerySyntax.Parser Grammar Glimpse

/-! ### What comes behind -/

/-- The pieces begin with one of the marks. -/
def Follows (words : List String) (next : List Piece) : Prop :=
  ∃ word ∈ words, ∃ more, next = .mark word :: more

/-- The keywords that begin what comes behind a clause. -/
def clauseWords : List String :=
  ["for", "let", "where", "count", "group", "stable", "order", "return"]

/-- The marks that come behind an operand. -/
def operandFollow : List String :=
  clauseWords ++ [",", "start", "only", "end", "collation", "ascending", "descending", "empty"]

/-- The marks that come behind a variable with its type. -/
def boundFollow : List String := ["allowing", "at", "score", "in", ":="]

variable {words words' : List String} {next pieces : List Piece} {text mid rest : List Char}

theorem Follows.mark {word : String} (h : word ∈ words) (more : List Piece) :
    Follows words (.mark word :: more) := ⟨word, h, more, rfl⟩

theorem Follows.weaken (h : Follows words next) (hsub : words ⊆ words') : Follows words' next := by
  obtain ⟨word, hword, more, rfl⟩ := h
  exact .mark (hsub hword) more

theorem Follows.ne_nil (h : Follows words next) : next ≠ [] := by
  obtain ⟨word, -, more, rfl⟩ := h
  exact List.cons_ne_nil _ _

/-- Rules are told from what comes behind by its first mark. -/
theorem Follows.declines (h : Follows words next) (htext : Spaced next text rest)
    (hends : endsToken rest) (state : LexicalState) (r : Rule)
    (hr : words.all fun word => Scan.declinesAt state r (Piece.front (.mark word))) :
    Declines state text r := by
  obtain ⟨word, hword, more, rfl⟩ := h
  exact (htext.begun (List.cons_ne_nil _ _)).declines_front hends state r
    (List.all_eq_true.1 hr word hword)

theorem Follows.declines_all {rules : List Rule} (h : Follows words next)
    (htext : Spaced next text rest) (hends : endsToken rest) (state : LexicalState)
    (hrules : words.all fun word => rules.all fun r =>
      Scan.declinesAt state r (Piece.front (.mark word))) : ∀ r ∈ rules, Declines state text r :=
  fun r hr => h.declines htext hends state r (List.all_eq_true.2 fun word hword =>
    List.all_eq_true.1 (List.all_eq_true.1 hrules word hword) r hr)

theorem Follows.precludes {chars : List Char} (h : Follows words next) (htext : Spaced next text rest)
    (hends : endsToken rest)
    (hwords : words.all fun word => chars.all fun c => next? c (Piece.front (.mark word)) = none) :
    Precludes chars text := by
  obtain ⟨word, hword, more, rfl⟩ := h
  exact htext.precludes hends (List.all_eq_true.1 hwords word hword)

/-- An operand ends here: no operator comes next, and nothing that would go on with a name. -/
structure EndsOperand (text : List Char) : Prop where
  colon : Precludes [':'] text
  operators : ∀ layer : Layer, layer.rank ≤ Layer.or.rank →
    ∀ r ∈ layer.rules, Declines .operator text r

theorem EndsOperand.of_space (h : Trivia text) : EndsOperand text where
  colon := .of_space h
  operators _ hlayer := (behind_space h).declines (Nat.lt_of_le_of_lt hlayer (by decide))

/-- The layers of operators. -/
def operatorLayers : List Layer :=
  [.primary, .unary, .intersect, .union, .multiplicative, .additive, .range, .comparison, .and, .or]

theorem mem_operatorLayers {layer : Layer} (h : layer.rank ≤ Layer.or.rank) :
    layer ∈ operatorLayers := by
  cases layer with
  | single | sequence => exact absurd h (by decide)
  | _ => decide

theorem operandFollow_decline :
    (operandFollow.all fun word => operatorLayers.all fun layer => layer.rules.all fun r =>
      Scan.declinesAt .operator r (Piece.front (.mark word))) = true := by
  rw [Scan.declinesAt_eq]
  rfl

theorem operandFollow_precludes :
    (operandFollow.all fun word => [':'].all fun c =>
      next? c (Piece.front (.mark word)) = none) = true := by
  rfl

theorem Follows.endsOperand (h : Follows operandFollow next) (htext : Spaced next text rest)
    (hends : endsToken rest) : EndsOperand text where
  colon := h.precludes htext hends operandFollow_precludes
  operators layer hlayer r hr := by
    refine h.declines htext hends .operator r (List.all_eq_true.2 fun word hword => ?_)
    exact List.all_eq_true.1 (List.all_eq_true.1 (List.all_eq_true.1 operandFollow_decline word hword)
      layer (mem_operatorLayers hlayer)) r hr

/-! ### Operands -/

/-- The scope of a query that stands where the parser does. -/
def Frame.scope (f : Frame) : QueryScope := ⟨f.context, f.extensions, f.maxDepth - f.depth⟩

/-- The rules that are tried in front of a literal. -/
theorem integerView_decline :
    ((keywordRules ++ signRules ++ valueRules).all fun r =>
      Scan.declinesAt .expression r [.digit]) = true := by
  rw [Scan.declinesAt_eq]
  rfl

variable {f : Frame} {saved : List LexicalState}

theorem Begun.takes_integer {value : Nat} (hvalue : value ≤ Numeral.maxInteger)
    (h : Begun (.integer value :: pieces) text rest) (hends : endsToken rest) :
    ∃ mid, Spaced pieces mid rest ∧ mid.length < text.length ∧
      Takes .expression text Terminal.numericLiteral mid [.number (.integer value)] := by
  have hlt := h.length_lt
  obtain ⟨space, chars, mid, rfl, hspace, hchars, htext⟩ := h
  have hlonger := List.length_pos_iff.2 hchars.ne_nil
  refine ⟨mid, htext, ?_, XQuerySyntax.takes_integer hvalue hspace hchars (htext.ends hends)⟩
  simp only [List.length_append]
  omega

/-- An operand is read by the parser of the tightest layer, and nothing that is tried in front of it
matches. -/
theorem SimpleOperand.reads_value {o : SimpleOperand} {single : Parser Expr} (ho : o.Fits f.scope)
    (h : Begun [o.piece] text mid) (hmid : EndsOperand mid) :
    (∀ r ∈ keywordRules ++ signRules, Declines .expression text r) ∧
      Reads f (.before saved text) (valueExpr single)
        (fun e => ∃ offset, e = .mk (o.expr f.module).kind offset f.module) (.behind saved mid) := by
  have hends := hmid.colon.ends List.mem_cons_self
  have hbehind := hmid.operators .primary (by decide)
  cases o with
  | varRef n =>
    have hrules := (h.begins_reference hmid.colon).of_rules referenceViews_settled referenceRules_decline
    refine ⟨fun r hr => hrules r ?_, reads_reference ho h hmid.colon hbehind⟩
    unfold referenceRules
    rw [List.append_assoc, List.append_assoc, ← List.append_assoc keywordRules]
    exact List.mem_append_left _ hr
  | integer value =>
    have hrules : ∀ r ∈ keywordRules ++ signRules ++ valueRules, Declines .expression text r :=
      fun r hr => h.declines_front hends .expression r (List.all_eq_true.1 integerView_decline r hr)
    obtain ⟨behind, hnil, -, htake⟩ := Begun.takes_integer ho h hends
    cases hnil
    refine ⟨fun r hr => hrules r (List.mem_append_left _ hr), ?_⟩
    apply reads_valueExpr_primary (fun r hr => hrules r (List.mem_append_right _ hr))
      (reads_primary_number htake)
    · rintro e ⟨offset, rfl⟩ axis test predicates hkind
      cases hkind
    · exact hbehind

/-- The parser of single expressions reads operands. -/
def ReadsOperands (f : Frame) (single : Parser Expr) : Prop :=
  ∀ (saved : List LexicalState) (o : SimpleOperand) (text mid : List Char), o.Fits f.scope →
    Begun [o.piece] text mid → EndsOperand mid →
      Reads f (.before saved text) single (fun e => e.placeless = o.expr f.module)
        (.behind saved mid)

theorem SimpleOperand.placeless_expr (o : SimpleOperand) (module : ModuleId) (offset : Nat) :
    (Expr.mk (o.expr module).kind offset module).placeless = o.expr module := by
  cases o <;> exact Expr.moved_mk _ _ _

theorem readsOperands_single (f : Frame) (k : Nat) (hdepth : f.depth < f.maxDepth) :
    ReadsOperands f (singleWithin (k + 1)) := by
  intro saved o text mid ho h hmid
  obtain ⟨hrules, hvalue⟩ : (∀ r ∈ keywordRules ++ signRules, Declines .expression text r) ∧
      Reads { f with depth := f.depth + 1 } (.before saved text) (Layer.primary.parser k)
        (fun e => ∃ offset, e = .mk (o.expr f.module).kind offset f.module) (.behind saved mid) :=
    SimpleOperand.reads_value (by cases o <;> exact ho) h hmid
  have hor : Reads { f with depth := f.depth + 1 } (.before saved text) (Layer.or.parser k)
      (fun e => ∃ offset, e = .mk (o.expr f.module).kind offset f.module) (.behind saved mid) :=
    Layer.reads_climb hmid.operators (by decide) (Nat.le_refl _)
      (fun _ r hr => hrules r (List.mem_append_right _ hr)) hvalue
  refine reads_nested hdepth (reads_singleOf (fun r hr => hrules r (List.mem_append_left _ hr)) ?_)
  refine reads_weaken hor fun e he => ?_
  obtain ⟨offset, rfl⟩ := he
  exact o.placeless_expr f.module offset

/-! ### Reading up to a piece -/

/-- From the place `l` the parser reads what is in front of the pieces, and goes on in the lexical
state. -/
def ReadsUpTo {α : Type} (f : Frame) (saved : List LexicalState) (state : LexicalState)
    (next : List Piece) (rest : List Char) (l : Place) (p : Parser α) (P : α → Prop) : Prop :=
  ∃ mid, Spaced next mid rest ∧ mid.length ≤ l.rest.length ∧ Reads f l p P (.at mid ⟨state, saved⟩)

variable {α β : Type} {state : LexicalState} {caught : Option Captures} {n : QName}

theorem ReadsOperands.reads {single : Parser Expr} {o : SimpleOperand} (hs : ReadsOperands f single)
    (saved : List LexicalState) (ho : o.Fits f.scope) (h : Begun (o.piece :: next) text rest)
    (hends : endsToken rest) (hnext : Follows operandFollow next) :
    ReadsUpTo f saved .operator next rest ⟨text, ⟨.expression, saved⟩, caught⟩ single
      (fun e => e.placeless = o.expr f.module) := by
  have htext : Begun ([o.piece] ++ next) text rest := h
  obtain ⟨mid, ho', hmid⟩ := htext.append (List.cons_ne_nil _ _)
  exact ⟨mid, hmid, ho'.length_le,
    reads_forget (hs saved o text mid ho ho' (hnext.endsOperand hmid hends))⟩

theorem reads_variable (hn : n.ResolvesIn f.context none)
    (h : Begun (.varName n :: next) text rest) (hends : endsToken rest) :
    ReadsUpTo f saved .operator next rest ⟨text, ⟨.expression, saved⟩, caught⟩ variableName
      (fun name => name = n) := by
  obtain ⟨mid, hmid, hlt, htake⟩ := h.takes_reference hends .expression (by rfl)
  exact ⟨mid, hmid, Nat.le_of_lt hlt, reads_variableName hn htake⟩

theorem boundFollow_precludes :
    (boundFollow.all fun word => typeGoesOn.all fun c =>
      next? c (Piece.front (.mark word)) = none) = true := by
  rfl

/-- A variable is read with its type. -/
theorem reads_typedVariable {type : Option SequenceType} (hv : VariableFits f.scope n type)
    (hdepth : f.depth < f.maxDepth) (hsize : text.length ≤ f.size)
    (h : Begun (.varName n :: (asPieces type ++ next)) text rest) (hends : endsToken rest)
    (hnext : Follows boundFollow next) :
    ReadsUpTo f saved .operator next rest ⟨text, ⟨.expression, saved⟩, caught⟩ typedVariable
      (fun v => v = (n, type)) := by
  obtain ⟨behind, hbehind, hle, hname⟩ : ReadsUpTo f saved .operator (asPieces type ++ next) rest
      ⟨text, ⟨.expression, saved⟩, caught⟩ variableName _ := reads_variable hv.name h hends
  change behind.length ≤ text.length at hle
  cases type with
  | none =>
    have has := hnext.declines hbehind hends .operator Terminal.asType (by rfl)
    refine ⟨behind, hbehind, hle, reads_bind hname fun name hn => ?_⟩
    refine reads_bind (reads_whenEats_declined has) fun t ht => ?_
    rw [hn, ht]
    exact reads_pure rfl
  | some t =>
    obtain ⟨hwell, hlevels⟩ := hv.type t rfl
    change t.levels ≤ f.maxDepth - f.depth at hlevels
    have has : Begun (.mark "as" :: (t.pieces ++ next)) behind rest := by
      have heq : asPieces (some t) ++ next = .mark "as" :: (t.pieces ++ next) := by simp [asPieces]
      rw [heq] at hbehind
      exact hbehind.begun (List.cons_ne_nil _ _)
    obtain ⟨inside, hinside, hlt, htake⟩ := has.takes_mark hends .operator Terminal.asType rfl (by rfl)
    have hinside' : Begun (t.pieces ++ next) inside rest := hinside.begun (by simp [t.pieces_ne_nil])
    obtain ⟨mid, htype, hmid⟩ := hinside'.append t.pieces_ne_nil
    have hgoes := hnext.precludes hmid hends boundFollow_precludes
    have hmidLength := htype.length_le
    refine ⟨mid, hmid, ?_, reads_bind hname fun name hn => ?_⟩
    · change mid.length ≤ text.length
      omega
    have hread : Reads f (.at inside ⟨.kindTest, saved⟩) (sequenceType .operator) (fun t' => t' = t)
        (.behind saved mid) := reads_sequenceType hwell (by omega) (by omega) htype hgoes
    refine reads_bind (reads_whenEats htake (reads_forget hread)) fun t' ht' => ?_
    obtain ⟨_, rfl, rfl⟩ := ht'
    rw [hn]
    exact reads_pure rfl

/-- A variable behind a keyword is read if it is there. -/
theorem reads_behindWord (saved : List LexicalState) (state : LexicalState) (r : Rule)
    (p : Parser QName) {word : String} {name : Option QName} (hr : r.isPhrase state word [] variableAhead)
    (henabled : name.isSome → f.extensions.enables r.extension) (hgoto : r.next = .goto .expression)
    (hp : ∀ m ∈ name, ∀ inside, Begun (.varName m :: next) inside rest →
      ReadsUpTo f saved .operator next rest (.before saved inside) p (fun q => q = m))
    (h : Spaced (behindWord word name ++ next) text rest) (hends : endsToken rest)
    (hnext : Follows words next)
    (hwords : words.all fun word => Scan.declinesAt state r (Piece.front (.mark word))) :
    ∃ state', (state' = state ∨ state' = .operator) ∧
      ReadsUpTo f saved state' next rest (.at text ⟨state, saved⟩) (whenEats r p)
        (fun q => q = name) := by
  cases name with
  | none =>
    exact ⟨state, .inl rfl, text, h, Nat.le_refl _,
      reads_whenEats_declined (hnext.declines h hends state r hwords)⟩
  | some m =>
    have htext : Begun (marks (word :: []) ++ .varName m :: next) text rest :=
      h.begun (List.cons_ne_nil _ _)
    obtain ⟨inside, hinside, hlt, hmatch⟩ := htext.matches_variable hends state r hr
    obtain ⟨mid, hmid, hle, hread⟩ := hp m rfl inside hinside
    have htake : TakesUnder f.extensions state text r inside [] :=
      ⟨henabled rfl, allowed_of_isPhrase hr, hmatch⟩
    refine ⟨.operator, .inr rfl, mid, hmid, Nat.le_trans hle (Nat.le_of_lt hlt), ?_⟩
    refine reads_ifEat_under htake ?_
    rw [hgoto]
    refine reads_forget (reads_bind hread fun q hq => ?_)
    rw [hq]
    exact reads_pure rfl

/-! ### Lists -/

/-- The marks that come behind an item of a list. -/
def itemFollow : List String := "," :: clauseWords

/-- The item is read wherever it is written. -/
def ReadsListed (f : Frame) (saved : List LexicalState) (rest : List Char) (pieces : List Piece)
    (p : Parser α) (P : α → Prop) : Prop :=
  ∀ (text : List Char) (next : List Piece), text.length ≤ f.size → Begun (pieces ++ next) text rest →
    Follows itemFollow next → ReadsUpTo f saved .operator next rest (.before saved text) p P

theorem clauseWords_comma :
    (clauseWords.all fun word =>
      Scan.declinesAt .operator Terminal.comma (Piece.front (.mark word))) = true := by
  rw [Scan.declinesAt_eq]
  rfl

theorem follows_further {pieces : β → List Piece} (items : List β) (hnext : Follows clauseWords next) :
    Follows itemFollow (commaPieces pieces items ++ next) := by
  cases items with
  | nil => exact hnext.weaken (List.subset_cons_self _ _)
  | cons b items => exact .mark List.mem_cons_self _

theorem reads_further (k : Nat) {pieces : β → List Piece} {p : Parser α} {P : β → α → Prop} {items : List β}
    (hitems : ∀ b ∈ items, ReadsListed f saved rest (pieces b) p (P b))
    (hsize : text.length ≤ f.size) (h : Spaced (commaPieces pieces items ++ next) text rest)
    (hends : endsToken rest) (hnext : Follows clauseWords next) (hk : text.length < k) :
    ReadsUpTo f saved .operator next rest (.behind saved text) (manyWithin (whenEats Terminal.comma p) k)
      (List.Forall₂ P items) := by
  induction items generalizing text k with
  | nil =>
    obtain ⟨k, rfl⟩ := Nat.exists_eq_add_of_lt hk
    have hcomma := hnext.declines h hends .operator Terminal.comma clauseWords_comma
    refine ⟨text, h, Nat.le_refl _, ?_⟩
    refine reads_weaken (reads_manyWithin_nil (reads_whenEats_declined hcomma)) fun as has => ?_
    rw [has]
    exact .nil
  | cons b items ih =>
    obtain ⟨k, rfl⟩ := Nat.exists_eq_add_of_lt hk
    have heq : commaPieces pieces (b :: items) ++ next =
        .mark "," :: (pieces b ++ (commaPieces pieces items ++ next)) := by
      simp [commaPieces]
    rw [heq] at h
    obtain ⟨inside, hinside, hlt, hcomma⟩ :=
      (h.begun (List.cons_ne_nil _ _)).takes_mark hends .operator Terminal.comma rfl (by rfl)
    have hfollows : Follows itemFollow (commaPieces pieces items ++ next) := follows_further items hnext
    obtain ⟨behind, hbehind, hle, hitem⟩ := hitems b List.mem_cons_self inside _ (by omega)
      (hinside.begun (List.append_ne_nil_of_right_ne_nil _ hfollows.ne_nil)) hfollows
    change behind.length ≤ inside.length at hle
    obtain ⟨mid, hmid, hle', hmore⟩ := ih (text.length + k)
      (fun b' hb' => hitems b' (List.mem_cons_of_mem b hb')) (by omega) hbehind (by omega)
    change mid.length ≤ behind.length at hle'
    have hfirst : Reads f (.behind saved text) (whenEats Terminal.comma p)
        (fun o => ∃ a, o = some a ∧ P b a) (.behind saved behind) :=
      reads_whenEats hcomma (reads_forget hitem)
    refine ⟨mid, hmid, ?_, ?_⟩
    · change mid.length ≤ text.length
      omega
    · refine reads_weaken (reads_manyWithin_cons hfirst hmore) fun as has => ?_
      obtain ⟨a, as, rfl, ha, has⟩ := has
      exact .cons ha has

/-- Items with commas between them. -/
theorem reads_separated {pieces : β → List Piece} {p : Parser α} {P : β → α → Prop} {items : List β}
    (hne : items ≠ []) (hitems : ∀ b ∈ items, ReadsListed f saved rest (pieces b) p (P b))
    (hsize : text.length ≤ f.size) (h : Begun (listPieces pieces items ++ next) text rest)
    (hends : endsToken rest) (hnext : Follows clauseWords next) :
    ReadsUpTo f saved .operator next rest (.before saved text) (separatedBy Terminal.comma p)
      (List.Forall₂ P items) := by
  obtain ⟨b, items, rfl⟩ := List.exists_cons_of_ne_nil hne
  have htext : Begun (pieces b ++ (commaPieces pieces items ++ next)) text rest := by
    rw [← List.append_assoc]
    exact h
  obtain ⟨behind, hbehind, hle, hitem⟩ :=
    hitems b List.mem_cons_self text _ hsize htext (follows_further items hnext)
  change behind.length ≤ text.length at hle
  obtain ⟨mid, hmid, hle', hmore⟩ := reads_further (f.size + 1)
    (fun b' hb' => hitems b' (List.mem_cons_of_mem b hb')) (by omega) hbehind hends hnext (by omega)
  refine ⟨mid, hmid, Nat.le_trans hle' hle, reads_bind hitem fun a ha => ?_⟩
  exact reads_bind (reads_many hmore) fun as has => reads_pure (.cons ha has)

end XQuerySyntax
