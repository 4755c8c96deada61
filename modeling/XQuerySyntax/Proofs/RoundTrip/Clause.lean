import XQuerySyntax.Proofs.RoundTrip.ClausePhrase

/-! Clauses are read as they are written, whatever clause comes next: bindings of `for` and `let`,
windows with their conditions, counters and conditions. -/

namespace XQuerySyntax

open XQuerySyntax.Parser Grammar

/-! ### What is read -/

/-- The binding up to where it stands. -/
def ForBinding.Denotes (module : ModuleId) (b : ForBinding SimpleOperand) (b' : ForBinding Expr) : Prop :=
  b'.map Expr.placeless (fun _ => 0) = b.map (SimpleOperand.expr module) fun _ => 0

/-- The binding up to where it stands. -/
def LetBinding.Denotes (module : ModuleId) (b : LetBinding SimpleOperand) (b' : LetBinding Expr) : Prop :=
  b'.map Expr.placeless (fun _ => 0) = b.map (SimpleOperand.expr module) fun _ => 0

/-- The window condition up to where it stands. -/
def WindowCondition.Denotes (module : ModuleId) (w : WindowCondition SimpleOperand)
    (w' : WindowCondition Expr) : Prop :=
  w'.map Expr.placeless = w.map (SimpleOperand.expr module)

/-- The clause up to where it stands. -/
def Clause.Denotes (module : ModuleId) (c : Clause SimpleOperand) (c' : Clause Expr) : Prop :=
  c'.map Expr.placeless (fun _ => 0) = c.map (SimpleOperand.expr module) fun _ => 0

/-- What belongs together is equal when it is made over. -/
theorem map_eq_of_forall₂ {α β γ : Type} {g : α → γ} {h : β → γ} {as : List α} {bs : List β}
    (hall : List.Forall₂ (fun b a => g a = h b) bs as) : as.map g = bs.map h := by
  induction hall with
  | nil => rfl
  | cons hhead _ ih => exact congrArg₂ List.cons hhead ih

namespace Grammar

variable {f : Frame} {saved : List LexicalState} {single : Parser Expr} {text rest : List Char}
  {next : List Piece} {words : List String}

theorem follows_behindWord (word : String) (name : Option QName) (hnext : Follows words next) :
    Follows (word :: words) (behindWord word name ++ next) := by
  cases name with
  | none => exact hnext.weaken (List.subset_cons_self _ _)
  | some n => exact .mark List.mem_cons_self _

variable {α β : Type} {l l₁ l₂ : Place} {P : α → Prop} {Q : β → Prop}

/-- A choice that both branches go on from alike. -/
theorem reads_choice {c : Bool} {yes no : Parser α} {go : α → Parser β}
    (h : Reads f l (if c = true then yes else no) P l₁) (hgo : ∀ a, P a → Reads f l₁ (go a) Q l₂) :
    Reads f l (if c = true then yes >>= go else no >>= go) Q l₂ := by
  cases c with
  | true => exact reads_bind h hgo
  | false => exact reads_bind h hgo

theorem reads_askedChoice {p : Parser Bool} {yes no : Parser α} {go : α → Parser β}
    (h : Reads f l (p >>= fun c => if c = true then yes else no) P l₁)
    (hgo : ∀ a, P a → Reads f l₁ (go a) Q l₂) :
    Reads f l (p >>= fun c => if c = true then yes >>= go else no >>= go) Q l₂ := by
  have hassoc : (p >>= fun c => if c = true then yes >>= go else no >>= go) =
      (p >>= fun c => if c = true then yes else no) >>= go := by
    rw [bind_assoc]
    congr 1
    funext c
    split <;> rfl
  rw [hassoc]
  exact reads_bind h hgo

/-! ### Bindings of `for` -/

/-- That a variable may be bound to nothing is said behind it. -/
theorem reads_allowingEmpty (f : Frame) (saved : List LexicalState) (allowing : Bool)
    (h : Spaced ((if allowing then marks ["allowing", "empty"] else []) ++ next) text rest)
    (hends : endsToken rest) (hnext : Follows ["at", "score", "in"] next) :
    ReadsUpTo f saved .operator next rest (.behind saved text) (eat Terminal.allowingEmpty)
      (fun b => b = allowing) := by
  cases allowing with
  | false =>
    have hdeclines := hnext.declines h hends .operator Terminal.allowingEmpty (by rfl)
    exact ⟨text, h, Nat.le_refl _, reads_eat_declined hdeclines⟩
  | true =>
    have htext : Begun (marks ["allowing", "empty"] ++ next) text rest := h.begun (List.cons_ne_nil _ _)
    obtain ⟨mid, hmid, hlt, htake⟩ := htext.takes hends .operator Terminal.allowingEmpty rfl (by rfl)
    exact ⟨mid, hmid, Nat.le_of_lt hlt, reads_leave (reads_eat htake)⟩

/-- Behind an operator keyword comes an operand. -/
theorem reads_keyword (f : Frame) (saved : List LexicalState) (state : LexicalState) (r : Rule)
    {word : String} (h : Begun (.mark word :: next) text rest) (hends : endsToken rest) (hcore : r.extension = .core)
    (hgoto : r.next = .goto .expression) (hr : r.isPhrase state word [] []) :
    ReadsUpTo f saved .expression next rest (.at text ⟨state, saved⟩) (expect r) (fun _ => True) := by
  obtain ⟨mid, hmid, hlt, htake⟩ := h.takes_mark hends state r hcore hr
  have hread : Reads f (.at text ⟨state, saved⟩) (expect r) (fun _ => True)
      ⟨mid, (⟨state, saved⟩ : StateStack).apply r.next, some []⟩ := reads_expect htake
  rw [hgoto] at hread
  exact ⟨mid, hmid, Nat.le_of_lt hlt, reads_leave hread⟩

theorem reads_positionalVariable (name : QName) {n : QName} (hn : n.ResolvesIn f.context none)
    (h : Begun (.varName n :: next) text rest) (hends : endsToken rest) :
    ReadsUpTo f saved .operator next rest (.before saved text) (positionalVariable name)
      (fun q => q = n) := by
  obtain ⟨mid, hmid, hle, hread⟩ : ReadsUpTo f saved .operator next rest (.before saved text)
      variableName _ := reads_variable hn h hends
  refine ⟨mid, hmid, hle, reads_bind reads_nextOffset fun offset _ => ?_⟩
  refine reads_bind hread fun q hq => ?_
  extract_lets answer
  have hanswer : Reads f (.behind saved mid) (answer ()) (fun q => q = n) (.behind saved mid) :=
    reads_pure hq
  split
  · exact reads_bind (reads_record _ _ _) fun _ _ => hanswer
  · exact hanswer

theorem reads_forBinding {b : ForBinding SimpleOperand} (hs : ReadsOperands f single)
    (hb : b.Fits f.scope) (hdepth : f.depth < f.maxDepth) (hends : endsToken rest) :
    ReadsListed f saved rest b.pieces (forBinding single) (b.Denotes f.module) := by
  intro text next hsize h hnext
  obtain ⟨n, type, allowing, positional, score, source, offset⟩ := b
  have heq : ForBinding.pieces ⟨n, type, allowing, positional, score, source, offset⟩ ++ next =
      .varName n :: (asPieces type ++ ((if allowing then marks ["allowing", "empty"] else []) ++
        (behindWord "at" positional ++ (behindWord "score" score ++
          (.mark "in" :: source.piece :: next))))) := by
    simp [ForBinding.pieces]
  rw [heq] at h
  have hin : Follows ["in"] (.mark "in" :: source.piece :: next) := .mark List.mem_cons_self _
  have hscore := follows_behindWord "score" score hin
  have hat := follows_behindWord "at" positional hscore
  have hallowing : Follows boundFollow ((if allowing then marks ["allowing", "empty"] else []) ++
      (behindWord "at" positional ++ (behindWord "score" score ++
        (.mark "in" :: source.piece :: next)))) := by
    cases allowing with
    | false => exact hat.weaken (by simp [boundFollow])
    | true => exact .mark (by simp [boundFollow]) _
  obtain ⟨text₁, h₁, hle₁, hvariable⟩ : ReadsUpTo f saved .operator _ rest (.before saved text)
      typedVariable _ := reads_typedVariable hb.bound hdepth hsize h hends hallowing
  obtain ⟨text₂, h₂, hle₂, hempty⟩ := reads_allowingEmpty f saved allowing h₁ hends hat
  obtain ⟨_, hstate, text₃, h₃, hle₃, hpositional⟩ := reads_behindWord saved .operator
    Terminal.atVariable (positionalVariable n) (by rfl) (fun _ => rfl) rfl
    (fun m hm inside hinside => reads_positionalVariable n (hb.positional m hm) hinside hends) h₂ hends hscore (by rfl)
  obtain rfl : _ = LexicalState.operator := hstate.elim id id
  obtain ⟨_, hstate, text₄, h₄, hle₄, hscored⟩ := reads_behindWord saved .operator
    Terminal.scoreVariable variableName (by rfl)
    (fun hsome => (hb.score _ (Option.get_mem hsome)).2) rfl
    (fun m hm inside hinside => reads_variable (hb.score m hm).1 hinside hends) h₃ hends hin (by rfl)
  obtain rfl : _ = LexicalState.operator := hstate.elim id id
  obtain ⟨text₅, h₅, hle₅, hword⟩ := reads_keyword f saved .operator
    Terminal.inSource (h₄.begun (List.cons_ne_nil _ _)) hends rfl rfl (by rfl)
  obtain ⟨mid, hmid, hle, hsource⟩ := hs.reads saved hb.source (h₅.begun (List.cons_ne_nil _ _)) hends
    (hnext.weaken (by decide))
  refine ⟨mid, hmid, ?_, reads_bind reads_nextOffset fun offset' _ => ?_⟩
  · exact hle.trans (hle₅.trans (hle₄.trans (hle₃.trans (hle₂.trans hle₁))))
  refine reads_bind hvariable fun v hv => ?_
  rw [hv]
  refine reads_bind hempty fun allowing' hallowing' => ?_
  refine reads_bind hpositional fun positional' hpositional' => ?_
  refine reads_bind hscored fun score' hscore' => ?_
  refine reads_bind hword fun _ _ => reads_bind hsource fun source' hsource' => reads_pure ?_
  rw [hallowing', hpositional', hscore']
  unfold ForBinding.Denotes ForBinding.map
  rw [hsource']

/-! ### Bindings of `let` -/

theorem reads_letBinding (saved : List LexicalState) {b : LetBinding SimpleOperand} (hs : ReadsOperands f single)
    (hb : b.Fits f.scope) (hdepth : f.depth < f.maxDepth) (hends : endsToken rest) :
    ReadsListed f saved rest b.pieces (letBinding single b.score) (b.Denotes f.module) := by
  intro text next hsize h hnext
  obtain ⟨n, type, score, value, offset⟩ := b
  have heq : LetBinding.pieces ⟨n, type, score, value, offset⟩ ++ next =
      .varName n :: (asPieces type ++ (.mark ":=" :: value.piece :: next)) := by
    simp [LetBinding.pieces]
  rw [heq] at h
  have hfollows : Follows boundFollow (.mark ":=" :: value.piece :: next) :=
    .mark (by simp [boundFollow]) _
  obtain ⟨text₁, h₁, hle₁, hvariable⟩ : ReadsUpTo f saved .operator _ rest (.before saved text)
      (if score then (·, none) <$> variableName else typedVariable) (fun v => v = (n, type)) := by
    cases score with
    | false => exact reads_typedVariable hb.bound hdepth hsize h hends hfollows
    | true =>
      obtain rfl : type = none := (hb.score rfl).1
      obtain ⟨mid, hmid, hle, hread⟩ : ReadsUpTo f saved .operator _ rest (.before saved text)
          variableName _ := reads_variable hb.bound.name h hends
      refine ⟨mid, hmid, hle, reads_map _ (reads_weaken hread fun q hq => ?_)⟩
      rw [hq]
  obtain ⟨text₂, h₂, hle₂, hassign⟩ := reads_keyword f saved .operator Terminal.assign
    (h₁.begun (List.cons_ne_nil _ _)) hends rfl rfl (by rfl)
  obtain ⟨mid, hmid, hle, hvalue⟩ := hs.reads saved hb.value (h₂.begun (List.cons_ne_nil _ _)) hends
    (hnext.weaken (by decide))
  refine ⟨mid, hmid, hle.trans (hle₂.trans hle₁), reads_bind reads_nextOffset fun offset' _ => ?_⟩
  refine reads_choice hvariable fun v hv => ?_
  rw [hv]
  refine reads_bind hassign fun _ _ => reads_bind hvalue fun value' hvalue' => reads_pure ?_
  unfold LetBinding.Denotes LetBinding.map
  rw [hvalue']

/-- Only the first of the bindings takes a score. -/
theorem reads_letBindings {b : LetBinding SimpleOperand} {bindings : List (LetBinding SimpleOperand)}
    (hs : ReadsOperands f single) (hb : ∀ b' ∈ b :: bindings, b'.Fits f.scope)
    (hscore : ∀ b' ∈ bindings, b'.score = false) (hdepth : f.depth < f.maxDepth)
    (hsize : text.length ≤ f.size)
    (h : Begun (listPieces LetBinding.pieces (b :: bindings) ++ next) text rest)
    (hends : endsToken rest) (hnext : Follows clauseWords next) :
    ReadsUpTo f saved .operator next rest (.before saved text) (letBindings single b.score)
      ((Clause.letBe (b :: bindings)).Denotes f.module) := by
  have htext : Begun (b.pieces ++ (commaPieces LetBinding.pieces bindings ++ next)) text rest := by
    rw [← List.append_assoc]
    exact h
  obtain ⟨behind, hbehind, hle, hfirst⟩ :=
    reads_letBinding saved hs (hb b List.mem_cons_self) hdepth hends text _ hsize htext
      (follows_further bindings hnext)
  change behind.length ≤ text.length at hle
  have hitems : ∀ b' ∈ bindings, ReadsListed f saved rest b'.pieces (letBinding single false)
      (b'.Denotes f.module) := by
    intro b' hb'
    have hread := reads_letBinding saved hs (hb b' (List.mem_cons_of_mem b hb')) hdepth hends
    rw [hscore b' hb'] at hread
    exact hread
  obtain ⟨mid, hmid, hle', hmore⟩ :=
    reads_further (f.size + 1) hitems (by omega) hbehind hends hnext (by omega)
  refine ⟨mid, hmid, Nat.le_trans hle' hle, reads_bind hfirst fun b' hb' => ?_⟩
  refine reads_bind (reads_many hmore) fun bs hbs => reads_pure ?_
  unfold Clause.Denotes
  exact congrArg Clause.letBe (map_eq_of_forall₂ (.cons hb' hbs))

/-! ### Windows -/

/-- The keywords of the variables of a window condition and their rules. -/
def windowVariables : List (String × Rule) :=
  [("at", Terminal.windowAt), ("previous", Terminal.windowPrevious), ("next", Terminal.windowNext)]

/-- The marks in a window condition. -/
def windowFollow : List String := ["at", "previous", "next", "when"]

/-- A window condition begins before a variable, and goes on behind one. -/
def codeStates : List LexicalState := [.expression, .operator]

theorem windowVariables_phrases :
    (windowVariables.all fun entry => codeStates.all fun state =>
      entry.2.isPhrase state entry.1 [] variableAhead && entry.2.extension = .core &&
        entry.2.next = .goto .expression && windowFollow.all fun word =>
          word == entry.1 || Scan.declinesAt state entry.2 (Piece.front (.mark word))) = true := by
  rw [Scan.declinesAt_eq]
  rfl

variable {state : LexicalState}

theorem reads_windowVariable (saved : List LexicalState) (r : Rule) {word : String} {name : Option QName}
    (hmem : (word, r) ∈ windowVariables) (hstate : state ∈ codeStates)
    (hname : ∀ n ∈ name, n.ResolvesIn f.context none)
    (h : Spaced (behindWord word name ++ next) text rest) (hends : endsToken rest)
    (hnext : Follows words next) (hsub : words ⊆ windowFollow) (hword : word ∉ words) :
    ∃ state' ∈ codeStates, ReadsUpTo f saved state' next rest (.at text ⟨state, saved⟩)
      (whenEats r variableName) (fun q => q = name) := by
  have hphrase := List.all_eq_true.1 (List.all_eq_true.1 windowVariables_phrases _ hmem) state hstate
  simp only [Bool.and_eq_true, decide_eq_true_eq] at hphrase
  obtain ⟨⟨⟨hphrase, hcore⟩, hgoto⟩, hdeclines⟩ := hphrase
  have hwords : words.all fun word => Scan.declinesAt state r (Piece.front (.mark word)) := by
    refine List.all_eq_true.2 fun other hother => ?_
    have hother' := List.all_eq_true.1 hdeclines other (hsub hother)
    rw [Bool.or_eq_true] at hother'
    refine hother'.resolve_left fun heq => ?_
    obtain rfl := eq_of_beq heq
    exact hword hother
  obtain ⟨state', hstate', hread⟩ := reads_behindWord saved state r variableName hphrase
    (fun _ => by rw [hcore]; rfl) hgoto (fun n hn inside hinside => reads_variable (hname n hn) hinside hends) h hends hnext hwords
  refine ⟨state', ?_, hread⟩
  rcases hstate' with rfl | rfl
  · exact hstate
  · decide

theorem windowView_decline :
    (windowFollow.all fun word =>
      Scan.declinesAt .expression Terminal.variableReference (Piece.front (.mark word))) = true := by
  rfl

theorem whenCondition_phrase :
    (codeStates.all fun state => Terminal.whenCondition.isPhrase state "when" [] []) = true := by
  rfl

theorem reads_windowCondition (saved : List LexicalState) {w : WindowCondition SimpleOperand}
    (hs : ReadsOperands f single) (hw : w.Fits f.scope) (h : Spaced (w.pieces ++ next) text rest) (hends : endsToken rest)
    (hnext : Follows operandFollow next) :
    ReadsUpTo f saved .operator next rest (.before saved text) (windowCondition single w.only)
      (w.Denotes f.module) := by
  obtain ⟨only, ⟨current, positional, previous, following⟩, condition⟩ := w
  have heq : WindowCondition.pieces ⟨only, ⟨current, positional, previous, following⟩, condition⟩ ++ next =
      current.toList.map .varName ++ (behindWord "at" positional ++
        (behindWord "previous" previous ++ (behindWord "next" following ++
          (.mark "when" :: condition.piece :: next)))) := by
    simp [WindowCondition.pieces]
  rw [heq] at h
  have hresolves (o : Option QName) (ho : o ∈ [current, positional, previous, following]) :
      ∀ n ∈ o, n.ResolvesIn f.context none :=
    fun n hn => hw.names n (List.mem_filterMap.2 ⟨o, ho, hn⟩)
  have hwhen : Follows ["when"] (.mark "when" :: condition.piece :: next) := .mark List.mem_cons_self _
  have hnext' := follows_behindWord "next" following hwhen
  have hprevious := follows_behindWord "previous" previous hnext'
  have hat := follows_behindWord "at" positional hprevious
  obtain ⟨state₁, hstate₁, text₁, h₁, hle₁, hcurrent⟩ : ∃ state' ∈ codeStates,
      ReadsUpTo f saved state' (behindWord "at" positional ++
        (behindWord "previous" previous ++ (behindWord "next" following ++
          (.mark "when" :: condition.piece :: next)))) rest (.before saved text)
        (do if ← peek Terminal.variableReference then some <$> variableName else pure none)
        (fun q => q = current) := by
    cases current with
    | none =>
      have hdeclines := hat.declines h hends .expression Terminal.variableReference windowView_decline
      exact ⟨.expression, by decide, text, h, Nat.le_refl _, reads_ifPeek_declined hdeclines (reads_pure rfl)⟩
    | some n =>
      have hn := hresolves (some n) (by simp) n rfl
      have htext := h.begun (List.cons_ne_nil _ _)
      obtain ⟨_, -, -, htake⟩ := htext.takes_reference hends .expression (by rfl)
      obtain ⟨mid, hmid, hle, hread⟩ : ReadsUpTo f saved .operator _ rest ⟨text, ⟨.expression, saved⟩, some _⟩
          variableName _ := reads_variable hn htext hends
      refine ⟨.operator, by decide, mid, hmid, hle, reads_ifPeek htake ?_⟩
      refine reads_map _ (reads_weaken hread fun q hq => ?_)
      rw [hq]
  obtain ⟨state₂, hstate₂, text₂, h₂, hle₂, hread₂⟩ := reads_windowVariable saved
    Terminal.windowAt (by simp [windowVariables]) hstate₁ (hresolves positional (by simp)) h₁ hends hprevious
    (by simp [windowFollow]) (by decide)
  obtain ⟨state₃, hstate₃, text₃, h₃, hle₃, hread₃⟩ := reads_windowVariable saved
    Terminal.windowPrevious (by simp [windowVariables]) hstate₂ (hresolves previous (by simp)) h₂ hends hnext'
    (by simp [windowFollow]) (by decide)
  obtain ⟨state₄, hstate₄, text₄, h₄, hle₄, hread₄⟩ := reads_windowVariable saved
    Terminal.windowNext (by simp [windowVariables]) hstate₃ (hresolves following (by simp)) h₃ hends hwhen
    (by simp [windowFollow]) (by decide)
  obtain ⟨text₅, h₅, hle₅, hword⟩ := reads_keyword f saved state₄ Terminal.whenCondition
    (h₄.begun (List.cons_ne_nil _ _)) hends rfl rfl (List.all_eq_true.1 whenCondition_phrase _ hstate₄)
  obtain ⟨mid, hmid, hle, hcondition⟩ := hs.reads saved hw.condition (h₅.begun (List.cons_ne_nil _ _)) hends
    hnext
  refine ⟨mid, hmid, ?_, ?_⟩
  · exact hle.trans (hle₅.trans (hle₄.trans (hle₃.trans (hle₂.trans hle₁))))
  refine reads_askedChoice hcurrent fun current' hcurrent' => ?_
  refine reads_bind hread₂ fun positional' hpositional => ?_
  refine reads_bind hread₃ fun previous' hprevious' => ?_
  refine reads_bind hread₄ fun following' hfollowing => ?_
  refine reads_bind hword fun _ _ => reads_bind hcondition fun condition' hcondition' => reads_pure ?_
  rw [hcurrent', hpositional, hprevious', hfollowing]
  unfold WindowCondition.Denotes WindowCondition.map
  rw [hcondition']

theorem windowEnd_phrases :
    Terminal.windowOnlyEnd.isPhrase .operator "only" ["end"] [] ∧
      Terminal.windowEnd.isPhrase .operator "end" [] [] ∧
      Scan.declinesAt .operator Terminal.windowOnlyEnd (Piece.front (.mark "end")) := by
  rw [Scan.declinesAt_eq]
  decide

theorem clauseWords_windowEnd :
    (clauseWords.all fun word => [Terminal.windowOnlyEnd, Terminal.windowEnd].all fun r =>
      Scan.declinesAt .operator r (Piece.front (.mark word))) = true := by
  rw [Scan.declinesAt_eq]
  rfl

/-- Only a window that moves by itself may have no end. -/
theorem reads_windowEnd (saved : List LexicalState) {kind : WindowKind}
    {finish : Option (WindowCondition SimpleOperand)} (hs : ReadsOperands f single)
    (hw : ∀ w ∈ finish, w.Fits f.scope) (hkind : kind = .sliding → finish.isSome)
    (h : Spaced (finish.toList.flatMap WindowCondition.endPieces ++ next) text rest)
    (hends : endsToken rest) (hnext : Follows clauseWords next) :
    ReadsUpTo f saved .operator next rest (.behind saved text) (windowEnd single kind)
      (fun o => o.map (WindowCondition.map Expr.placeless) =
        finish.map (WindowCondition.map (SimpleOperand.expr f.module))) := by
  obtain ⟨honly, hend, hother⟩ := windowEnd_phrases
  cases finish with
  | none =>
    have hdeclines := hnext.declines_all h hends .operator clauseWords_windowEnd
    have hmoves : kind ≠ .sliding := fun heq => by cases hkind heq
    refine ⟨text, h, Nat.le_refl _, ?_⟩
    apply reads_ifEat_declined (hdeclines Terminal.windowOnlyEnd (by simp))
    apply reads_ifEat_declined (hdeclines Terminal.windowEnd (by simp))
    extract_lets answer
    rw [if_neg hmoves]
    exact reads_pure rfl
  | some w =>
    have hfollows : Follows operandFollow next := hnext.weaken (by decide)
    have hread {inside : List Char} (hinside : Spaced (w.pieces ++ next) inside rest)
        (hlt : inside.length < text.length) :
        ReadsUpTo f saved .operator next rest ⟨inside, ⟨.expression, saved⟩, some []⟩
          (do return some (← windowCondition single w.only))
          (fun o => o.map (WindowCondition.map Expr.placeless) =
            some (w.map (SimpleOperand.expr f.module))) ∧ inside.length ≤ text.length := by
      obtain ⟨mid, hmid, hle, hread⟩ := reads_windowCondition saved hs (hw w rfl) hinside hends hfollows
      refine ⟨⟨mid, hmid, hle, reads_forget (reads_bind hread fun w' hw' => reads_pure ?_)⟩, hlt.le⟩
      exact congrArg some hw'
    have heq : (some w).toList.flatMap WindowCondition.endPieces ++ next =
        marks (if w.only then ["only", "end"] else ["end"]) ++ (w.pieces ++ next) := by
      simp [WindowCondition.endPieces]
    rw [heq] at h
    by_cases hw' : w.only
    · rw [if_pos hw'] at h
      have htext : Begun (marks ["only", "end"] ++ (w.pieces ++ next)) text rest :=
        h.begun (List.cons_ne_nil _ _)
      obtain ⟨inside, hinside, hlt, htake⟩ := htext.takes hends .operator Terminal.windowOnlyEnd rfl honly
      obtain ⟨⟨mid, hmid, hle, hcondition⟩, hshort⟩ := hread hinside hlt
      rw [hw'] at hcondition
      exact ⟨mid, hmid, hle.trans hshort, reads_ifEat htake hcondition⟩
    · rw [if_neg hw'] at h
      have htext : Begun (.mark "end" :: (w.pieces ++ next)) text rest := h.begun (List.cons_ne_nil _ _)
      obtain ⟨inside, hinside, hlt, htake⟩ := htext.takes_mark hends .operator Terminal.windowEnd rfl hend
      have hdeclines := htext.declines_front hends .operator Terminal.windowOnlyEnd hother
      obtain ⟨⟨mid, hmid, hle, hcondition⟩, hshort⟩ := hread hinside hlt
      rw [Bool.eq_false_iff.2 hw'] at hcondition
      exact ⟨mid, hmid, hle.trans hshort, reads_ifEat_declined hdeclines (reads_ifEat htake hcondition)⟩

/-- What is recorded for each element of a list does not move the parser. -/
theorem reads_recordEach {ι : Type} (items : List ι) (code : ErrorCode) (offset : Nat)
    (message : ι → String) :
    Reads f l (forIn items PUnit.unit fun i _ => do
      record code offset (message i)
      pure (.yield PUnit.unit)) (fun _ => True) l := by
  induction items with
  | nil => exact reads_pure trivial
  | cons i items ih =>
    rw [List.forIn_cons]
    have hround : Reads f l (do
        record code offset (message i)
        pure (ForInStep.yield PUnit.unit)) (fun o => o = .yield PUnit.unit) l :=
      reads_bind (reads_record _ _ _) fun _ _ => reads_pure rfl
    refine reads_bind hround fun o ho => ?_
    rw [ho]
    exact ih

/-- A window clause behind its keywords. -/
theorem reads_windowClause {kind : WindowKind} {n : QName} {type : Option SequenceType}
    {source : SimpleOperand} {start : WindowCondition SimpleOperand}
    {finish : Option (WindowCondition SimpleOperand)} (hs : ReadsOperands f single)
    (hc : (Clause.window kind n type source start finish).Fits f.scope)
    (hkind : kind = .sliding → finish.isSome) (hdepth : f.depth < f.maxDepth)
    (hsize : text.length ≤ f.size)
    (h : Begun (.varName n :: (asPieces type ++ (.mark "in" :: source.piece :: .mark "start" ::
      (start.pieces ++ (finish.toList.flatMap WindowCondition.endPieces ++ next))))) text rest)
    (hends : endsToken rest) (hnext : Follows clauseWords next) :
    ReadsUpTo f saved .operator next rest (.before saved text) (windowClause single kind)
      ((Clause.window kind n type source start finish).Denotes f.module) := by
  obtain ⟨hvariable, hsource, ⟨hstart, honly⟩, hfinish⟩ := hc
  obtain ⟨text₁, h₁, hle₁, hread₁⟩ : ReadsUpTo f saved .operator _ rest (.before saved text)
      typedVariable _ := reads_typedVariable hvariable hdepth hsize h hends (.mark (by simp [boundFollow]) _)
  obtain ⟨text₂, h₂, hle₂, hread₂⟩ := reads_keyword f saved .operator Terminal.inSource
    (h₁.begun (List.cons_ne_nil _ _)) hends rfl rfl (by rfl)
  obtain ⟨text₃, h₃, hle₃, hread₃⟩ := hs.reads saved hsource (h₂.begun (List.cons_ne_nil _ _)) hends
    (.mark (by simp [operandFollow, clauseWords]) _)
  obtain ⟨text₄, h₄, hle₄, hread₄⟩ := reads_keyword f saved .operator Terminal.windowStart
    (h₃.begun (List.cons_ne_nil _ _)) hends rfl rfl (by rfl)
  have hfollows : Follows operandFollow (finish.toList.flatMap WindowCondition.endPieces ++ next) := by
    cases finish with
    | none => exact hnext.weaken (by decide)
    | some w =>
      simp only [Option.toList, List.flatMap_cons, WindowCondition.endPieces]
      split
      · exact .mark (by simp [operandFollow, clauseWords]) _
      · exact .mark (by simp [operandFollow, clauseWords]) _
  obtain ⟨text₅, h₅, hle₅, hread₅⟩ := reads_windowCondition saved hs hstart h₄ hends hfollows
  rw [honly] at hread₅
  obtain ⟨mid, hmid, hle, hread₆⟩ := reads_windowEnd saved hs hfinish hkind h₅ hends hnext
  refine ⟨mid, hmid, ?_, reads_bind reads_nextOffset fun offset _ => ?_⟩
  · exact hle.trans (hle₅.trans (hle₄.trans (hle₃.trans (hle₂.trans hle₁))))
  refine reads_bind hread₁ fun v hv => ?_
  rw [hv]
  refine reads_bind hread₂ fun _ _ => reads_bind hread₃ fun source' hsource' => ?_
  refine reads_bind hread₄ fun _ _ => reads_bind hread₅ fun start' hstart' => ?_
  refine reads_bind hread₆ fun finish' hfinish' => ?_
  refine reads_bind (reads_recordEach _ _ _ _) fun _ _ => reads_pure ?_
  have hcondition : start'.map Expr.placeless = start.map (SimpleOperand.expr f.module) := hstart'
  simp only [Clause.Denotes, Clause.map, hsource', hcondition, hfinish']

/-! ### Clauses -/

/-- An answer that has to be there is given as one. -/
theorem reads_answer {p : Parser α} (caught : Option Captures)
    (h : ReadsUpTo f saved .operator next rest (.before saved text) p P) :
    ReadsUpTo f saved .operator next rest ⟨text, ⟨.expression, saved⟩, caught⟩
      (do return some (← p)) (fun o => ∃ a, o = some a ∧ P a) := by
  obtain ⟨mid, hmid, hle, hread⟩ := h
  exact ⟨mid, hmid, hle, reads_forget (reads_bind hread fun a ha => reads_pure ⟨a, rfl, ha⟩)⟩

/-- What is seen of a keyword in front of a variable. -/
def variableView (word : String) : List Glimpse := [.word word.toList, .gap, .char '$']

/-- What tells window clauses apart is behind `for`. -/
theorem windowRules_phrases :
    (codeStates.all fun state =>
      Terminal.forTumbling.isPhrase state "for" ["tumbling", "window"] variableAhead &&
        Terminal.forSliding.isPhrase state "for" ["sliding", "window"] variableAhead &&
          Scan.declinesAt state Terminal.forTumbling
            (Piece.views [] (marks ["for", "sliding"]))) = true := by
  rw [Scan.declinesAt_eq]
  rfl

theorem forRules_phrases :
    (codeStates.all fun state =>
      Terminal.forClause.isPhrase state "for" [] variableAhead &&
        [Terminal.forTumbling, Terminal.forSliding].all fun r =>
          Scan.declinesAt state r (variableView "for")) = true := by
  rw [Scan.declinesAt_eq]
  rfl

theorem letRules_phrases :
    (codeStates.all fun state =>
      Terminal.letScore.isPhrase state "let" ["score"] variableAhead &&
        Terminal.letClause.isPhrase state "let" [] variableAhead &&
          Scan.declinesAt state Terminal.letScore (variableView "let") &&
            [Terminal.forTumbling, Terminal.forSliding, Terminal.forClause].all fun r =>
              Scan.declinesAt state r (Piece.front (.mark "let"))) = true := by
  rw [Scan.declinesAt_eq]
  rfl

section

variable (hs : ReadsOperands f single) (hstate : state ∈ codeStates) (hdepth : f.depth < f.maxDepth)
  (hsize : text.length ≤ f.size) (hends : endsToken rest) (hnext : Follows clauseWords next)

include hs hstate hdepth hsize hends hnext

/-- A window clause is read at the beginning and behind other clauses. -/
theorem reads_initial_window {kind : WindowKind} {n : QName} {type : Option SequenceType}
    {source : SimpleOperand} {start : WindowCondition SimpleOperand}
    {finish : Option (WindowCondition SimpleOperand)}
    (hc : (Clause.window kind n type source start finish).Fits f.scope)
    (hkind : kind = .sliding → finish.isSome)
    (h : Begun ((Clause.window kind n type source start finish).pieces ++ next) text rest) :
    ReadsUpTo f saved .operator next rest (.at text ⟨state, saved⟩) (initialClause single)
      (fun o => ∃ c, o = some c ∧
        (Clause.window kind n type source start finish).Denotes f.module c) := by
  have hphrases := List.all_eq_true.1 windowRules_phrases state hstate
  simp only [Bool.and_eq_true] at hphrases
  obtain ⟨⟨htumbling, hsliding⟩, hother⟩ := hphrases
  have heq : Clause.pieces (.window kind n type source start finish) ++ next =
      marks ["for", kind.word, "window"] ++ .varName n :: (asPieces type ++
        (.mark "in" :: source.piece :: .mark "start" ::
          (start.pieces ++ (finish.toList.flatMap WindowCondition.endPieces ++ next)))) := by
    simp [Clause.pieces]
  rw [heq] at h
  cases kind with
  | tumbling =>
    obtain ⟨inside, hinside, hlt, htake⟩ :=
      h.takes_variable hends state Terminal.forTumbling rfl htumbling
    obtain ⟨mid, hmid, hle, hread⟩ := reads_answer (some [])
      (reads_windowClause hs hc hkind hdepth (hlt.le.trans hsize) hinside hends hnext)
    exact ⟨mid, hmid, hle.trans hlt.le, reads_ifEat htake hread⟩
  | sliding =>
    have hdeclines : Declines state text Terminal.forTumbling := by
      have hfirst : Begun (marks ["for", "sliding"] ++ _) text rest := h
      exact hfirst.declines (List.cons_ne_nil _ _) hends state _ hother
    obtain ⟨inside, hinside, hlt, htake⟩ :=
      h.takes_variable hends state Terminal.forSliding rfl hsliding
    obtain ⟨mid, hmid, hle, hread⟩ := reads_answer (some [])
      (reads_windowClause hs hc hkind hdepth (hlt.le.trans hsize) hinside hends hnext)
    exact ⟨mid, hmid, hle.trans hlt.le, reads_ifEat_declined hdeclines (reads_ifEat htake hread)⟩

theorem reads_initial_for {bindings : List (ForBinding SimpleOperand)} (hne : bindings ≠ [])
    (hc : (Clause.forEach bindings).Fits f.scope)
    (h : Begun ((Clause.forEach bindings).pieces ++ next) text rest) :
    ReadsUpTo f saved .operator next rest (.at text ⟨state, saved⟩) (initialClause single)
      (fun o => ∃ c, o = some c ∧ (Clause.forEach bindings).Denotes f.module c) := by
  have hphrases := List.all_eq_true.1 forRules_phrases state hstate
  rw [Bool.and_eq_true] at hphrases
  obtain ⟨hfor, hother⟩ := hphrases
  obtain ⟨b, bindings, rfl⟩ := List.exists_cons_of_ne_nil hne
  have htext : Begun (marks ["for"] ++ Piece.varName b.name :: _) text rest := h
  have hdeclines : ∀ r ∈ [Terminal.forTumbling, Terminal.forSliding], Declines state text r := by
    have hfirst : Begun ([Piece.mark "for", .varName b.name] ++ _) text rest := h
    exact fun r hr => hfirst.declines (List.cons_ne_nil _ _) hends state r
      (List.all_eq_true.1 hother r hr)
  obtain ⟨inside, hinside, hlt, htake⟩ :=
    htext.takes_variable hends state Terminal.forClause rfl hfor
  obtain ⟨mid, hmid, hle, hread⟩ : ReadsUpTo f saved .operator next rest (.before saved inside)
      (separatedBy Terminal.comma (forBinding single)) _ :=
    reads_separated (List.cons_ne_nil _ _)
      (fun b' hb' => reads_forBinding hs (hc b' hb') hdepth hends) (hlt.le.trans hsize) hinside hends hnext
  refine ⟨mid, hmid, hle.trans hlt.le, ?_⟩
  apply reads_ifEat_declined (hdeclines Terminal.forTumbling (by simp))
  apply reads_ifEat_declined (hdeclines Terminal.forSliding (by simp))
  apply reads_ifEat htake
  refine reads_forget (reads_bind hread fun bs hbs => reads_pure ⟨_, rfl, ?_⟩)
  exact congrArg Clause.forEach (map_eq_of_forall₂ hbs)

theorem reads_initial_let {bindings : List (LetBinding SimpleOperand)} (hne : bindings ≠ [])
    (hc : (Clause.letBe bindings).Fits f.scope)
    (h : Begun ((Clause.letBe bindings).pieces ++ next) text rest) :
    ReadsUpTo f saved .operator next rest (.at text ⟨state, saved⟩) (initialClause single)
      (fun o => ∃ c, o = some c ∧ (Clause.letBe bindings).Denotes f.module c) := by
  have hphrases := List.all_eq_true.1 letRules_phrases state hstate
  simp only [Bool.and_eq_true] at hphrases
  obtain ⟨⟨⟨hscored, hlet⟩, hother⟩, hfor⟩ := hphrases
  obtain ⟨b, bindings, rfl⟩ := List.exists_cons_of_ne_nil hne
  obtain ⟨hfits, hscores⟩ := hc
  have heq : Clause.pieces (.letBe (b :: bindings)) ++ next =
      marks (if b.score then ["let", "score"] else ["let"]) ++
        (listPieces LetBinding.pieces (b :: bindings) ++ next) := by
    rw [Clause.pieces, List.append_assoc]
    rfl
  rw [heq] at h
  have hdeclines : ∀ r ∈ [Terminal.forTumbling, Terminal.forSliding, Terminal.forClause],
      Declines state text r := by
    have hfirst : ∃ more, Begun (.mark "let" :: more) text rest := by
      split at h
      · exact ⟨_, h⟩
      · exact ⟨_, h⟩
    obtain ⟨more, hfirst⟩ := hfirst
    exact fun r hr => hfirst.declines_front hends state r (List.all_eq_true.1 hfor r hr)
  have hbindings {inside : List Char} (hlt : inside.length < text.length)
      (hinside : Begun (listPieces LetBinding.pieces (b :: bindings) ++ next) inside rest) :
      ReadsUpTo f saved .operator next rest ⟨inside, ⟨.expression, saved⟩, some []⟩
        (do return some (← letBindings single b.score))
        (fun o => ∃ c, o = some c ∧ (Clause.letBe (b :: bindings)).Denotes f.module c) :=
    reads_answer _ (reads_letBindings hs hfits hscores hdepth (hlt.le.trans hsize) hinside hends hnext)
  cases hscore : b.score with
  | false =>
    rw [hscore] at h hbindings
    have htext : Begun (marks ["let"] ++ Piece.varName b.name :: _) text rest := h
    have hfirst : Begun ([Piece.mark "let", .varName b.name] ++ _) text rest := h
    obtain ⟨inside, hinside, hlt, htake⟩ :=
      htext.takes_variable hends state Terminal.letClause rfl hlet
    obtain ⟨mid, hmid, hle, hread⟩ := hbindings hlt hinside
    refine ⟨mid, hmid, hle.trans hlt.le, ?_⟩
    apply reads_ifEat_declined (hdeclines Terminal.forTumbling (by simp))
    apply reads_ifEat_declined (hdeclines Terminal.forSliding (by simp))
    apply reads_ifEat_declined (hdeclines Terminal.forClause (by simp))
    apply reads_ifEat_declined (hfirst.declines (List.cons_ne_nil _ _) hends state _ hother)
    exact reads_ifEat htake hread
  | true =>
    rw [hscore] at h hbindings
    have htext : Begun (marks ["let", "score"] ++ Piece.varName b.name :: _) text rest := h
    obtain ⟨inside, hinside, hlt, hmatch⟩ :=
      htext.matches_variable hends state Terminal.letScore hscored
    have htake : TakesUnder f.extensions state text Terminal.letScore inside [] :=
      ⟨((hfits b List.mem_cons_self).score hscore).2, allowed_of_isPhrase hscored, hmatch⟩
    obtain ⟨mid, hmid, hle, hread⟩ := hbindings hlt hinside
    refine ⟨mid, hmid, hle.trans hlt.le, ?_⟩
    apply reads_ifEat_declined (hdeclines Terminal.forTumbling (by simp))
    apply reads_ifEat_declined (hdeclines Terminal.forSliding (by simp))
    apply reads_ifEat_declined (hdeclines Terminal.forClause (by simp))
    exact reads_ifEat_under htake hread

/-- A clause that a query may begin with is read at its beginning and behind other clauses. -/
theorem reads_initialClause {c : Clause SimpleOperand} (hc : c.Fits f.scope) (hw : c.WellFormed)
    (hinitial : c.isInitial) (h : Begun (c.pieces ++ next) text rest) :
    ReadsUpTo f saved .operator next rest (.at text ⟨state, saved⟩) (initialClause single)
      (fun o => ∃ c', o = some c' ∧ c.Denotes f.module c') := by
  cases c with
  | forEach bindings => exact reads_initial_for hs hstate hdepth hsize hends hnext hw hc h
  | letBe bindings => exact reads_initial_let hs hstate hdepth hsize hends hnext hw hc h
  | window => exact reads_initial_window hs hstate hdepth hsize hends hnext hc hw h
  | count n => cases hinitial
  | filter condition => cases hinitial

end

/-- The keywords of the other clauses, and those behind all clauses, begin no clause that a query may
begin with. -/
theorem initialRules_decline :
    (["where", "count", "group", "stable", "order", "return"].all fun word =>
      ([Terminal.forTumbling, Terminal.forSliding, Terminal.forClause, Terminal.letScore,
        Terminal.letClause].all fun r => Scan.declinesAt .operator r (Piece.front (.mark word)))) = true := by
  rw [Scan.declinesAt_eq]
  rfl

/-- The keywords that come behind all clauses. -/
def endWords : List String := ["group", "stable", "order", "return"]

theorem clauseRules_decline :
    (endWords.all fun word => [Terminal.whereClause, Terminal.countClause].all fun r =>
      Scan.declinesAt .operator r (Piece.front (.mark word))) = true := by
  rw [Scan.declinesAt_eq]
  rfl

theorem reads_initialClause_declined (hwords : words ⊆ ["where", "count", "group", "stable", "order", "return"])
    (h : Spaced next text rest) (hends : endsToken rest) (hnext : Follows words next) :
    Reads f (.behind saved text) (initialClause single) (fun o => o = none) (.behind saved text) := by
  have hdeclines := (hnext.weaken hwords).declines_all h hends .operator initialRules_decline
  apply reads_ifEat_declined (hdeclines Terminal.forTumbling (by simp))
  apply reads_ifEat_declined (hdeclines Terminal.forSliding (by simp))
  apply reads_ifEat_declined (hdeclines Terminal.forClause (by simp))
  apply reads_ifEat_declined (hdeclines Terminal.letScore (by simp))
  apply reads_ifEat_declined (hdeclines Terminal.letClause (by simp))
  exact reads_pure rfl

/-- Behind all clauses none is read. -/
theorem reads_clause_declined (h : Spaced next text rest) (hends : endsToken rest)
    (hnext : Follows endWords next) :
    Reads f (.behind saved text) (clause single) (fun o => o = none) (.behind saved text) := by
  have hdeclines := hnext.declines_all h hends .operator clauseRules_decline
  have hinitial : Reads f (.behind saved text) (initialClause single) (fun o => o = none) (.behind saved text) :=
    reads_initialClause_declined (by decide) h hends hnext
  refine reads_bind hinitial fun o ho => ?_
  rw [ho]
  apply reads_ifEat_declined (hdeclines Terminal.whereClause (by simp))
  apply reads_ifEat_declined (hdeclines Terminal.countClause (by simp))
  exact reads_pure rfl

/-- Every clause is read behind others. -/
theorem reads_clause (saved : List LexicalState) {c : Clause SimpleOperand} (hs : ReadsOperands f single)
    (hc : c.Fits f.scope) (hw : c.WellFormed) (hdepth : f.depth < f.maxDepth)
    (hsize : text.length ≤ f.size) (h : Spaced (c.pieces ++ next) text rest) (hends : endsToken rest)
    (hnext : Follows clauseWords next) :
    ReadsUpTo f saved .operator next rest (.behind saved text) (clause single)
      (fun o => ∃ c', o = some c' ∧ c.Denotes f.module c') := by
  by_cases hinitial : c.isInitial
  · have hbegun := h.begun (List.append_ne_nil_of_right_ne_nil _ hnext.ne_nil)
    obtain ⟨mid, hmid, hle, hread⟩ : ReadsUpTo f saved .operator next rest (.behind saved text)
        (initialClause single) _ :=
      reads_initialClause hs (by decide) hdepth hsize hends hnext hc hw hinitial hbegun
    refine ⟨mid, hmid, hle, reads_bind hread fun o ho => ?_⟩
    obtain ⟨c', rfl, hc'⟩ := ho
    exact reads_pure ⟨c', rfl, hc'⟩
  · cases c with
    | forEach | letBe | window => exact absurd rfl hinitial
    | filter condition =>
      have htext : Spaced (.mark "where" :: condition.piece :: next) text rest := h
      have hnone : Reads f (.behind saved text) (initialClause single) (fun o => o = none) (.behind saved text) :=
        reads_initialClause_declined (by decide) htext hends (.mark (List.mem_singleton_self _) _)
      obtain ⟨inside, hinside, hlt, htake⟩ := (htext.begun (List.cons_ne_nil _ _)).takes_mark hends
        .operator Terminal.whereClause rfl (by rfl)
      obtain ⟨mid, hmid, hle, hread⟩ := hs.reads saved hc (hinside.begun (List.cons_ne_nil _ _)) hends
        (hnext.weaken (by decide))
      refine ⟨mid, hmid, hle.trans hlt.le, reads_bind hnone fun o ho => ?_⟩
      rw [ho]
      refine reads_ifEat htake (reads_bind hread fun e he => reads_pure ⟨_, rfl, ?_⟩)
      exact congrArg Clause.filter he
    | count n =>
      have htext : Spaced (.mark "count" :: .varName n :: next) text rest := h
      have hnone : Reads f (.behind saved text) (initialClause single) (fun o => o = none) (.behind saved text) :=
        reads_initialClause_declined (by decide) htext hends (.mark (List.mem_singleton_self _) _)
      have hbegun : Begun (marks ["count"] ++ .varName n :: next) text rest := htext.begun (List.cons_ne_nil _ _)
      have hwhere := Begun.declines_front hbegun hends .operator Terminal.whereClause (by rfl)
      obtain ⟨inside, hinside, hlt, htake⟩ := hbegun.takes_variable hends .operator Terminal.countClause rfl (by rfl)
      obtain ⟨mid, hmid, hle, hread⟩ : ReadsUpTo f saved .operator next rest ⟨inside, ⟨.expression, saved⟩, some []⟩
          variableName _ := reads_variable hc hinside hends
      refine ⟨mid, hmid, hle.trans hlt.le, reads_bind hnone fun o ho => ?_⟩
      rw [ho]
      refine reads_ifEat_declined hwhere (reads_ifEat htake (reads_bind hread fun name hname => ?_))
      rw [hname]
      exact reads_pure ⟨_, rfl, rfl⟩

theorem follows_clause (c : Clause SimpleOperand) (next : List Piece) :
    Follows clauseWords (c.pieces ++ next) := by
  cases c with
  | forEach | window => exact .mark (by simp [clauseWords]) _
  | letBe bindings =>
    rw [Clause.pieces]
    split
    · exact .mark (by simp [clauseWords]) _
    · exact .mark (by simp [clauseWords]) _
  | filter | count => exact .mark (by simp [clauseWords]) _

theorem follows_clauses {cs : List (Clause SimpleOperand)} (hnext : Follows clauseWords next) :
    Follows clauseWords (cs.flatMap Clause.pieces ++ next) := by
  cases cs with
  | nil => exact hnext
  | cons c cs =>
    rw [List.flatMap_cons, List.append_assoc]
    exact follows_clause c _

theorem length_le_pieces (cs : List (Clause SimpleOperand)) :
    cs.length ≤ (cs.flatMap Clause.pieces).length := by
  induction cs with
  | nil => exact Nat.le_refl _
  | cons c cs ih =>
    have hpos : 0 < c.pieces.length := by
      refine List.length_pos_iff.2 fun hnil => ?_
      have hfollows := follows_clause c []
      rw [hnil] at hfollows
      exact hfollows.ne_nil rfl
    rw [List.flatMap_cons, List.length_append, List.length_cons]
    omega

/-- Clauses one after the other are read until none comes next. -/
theorem reads_clauses {p : Parser (Option (Clause Expr))} {cs : List (Clause SimpleOperand)}
    (hclause : ∀ c ∈ cs, ∀ text next, text.length ≤ f.size → Spaced (c.pieces ++ next) text rest →
      Follows clauseWords next → ReadsUpTo f saved .operator next rest (.behind saved text) p
        (fun o => ∃ c', o = some c' ∧ c.Denotes f.module c'))
    (hstop : ∀ text, Spaced next text rest →
      Reads f (.behind saved text) p (fun o => o = none) (.behind saved text))
    (hsize : text.length ≤ f.size) (h : Spaced (cs.flatMap Clause.pieces ++ next) text rest)
    (hnext : Follows clauseWords next) :
    ReadsUpTo f saved .operator next rest (.behind saved text) (many p)
      (List.Forall₂ (Clause.Denotes f.module) cs) := by
  have hwithin (k : Nat) (hk : cs.length < k) :
      ReadsUpTo f saved .operator next rest (.behind saved text) (manyWithin p k)
        (List.Forall₂ (Clause.Denotes f.module) cs) := by
    induction cs generalizing text k with
    | nil =>
      obtain ⟨k, rfl⟩ := Nat.exists_eq_add_of_lt hk
      refine ⟨text, h, Nat.le_refl _, reads_weaken (reads_manyWithin_nil (hstop text h)) fun as has => ?_⟩
      rw [has]
      exact .nil
    | cons c cs ih =>
      obtain ⟨k, rfl⟩ := Nat.exists_eq_add_of_lt hk
      rw [List.flatMap_cons, List.append_assoc] at h
      obtain ⟨behind, hbehind, hle, hread⟩ :=
        hclause c List.mem_cons_self text _ hsize h (follows_clauses hnext)
      obtain ⟨mid, hmid, hle', hmore⟩ := ih (fun c' hc' => hclause c' (List.mem_cons_of_mem c hc'))
        (hle.trans hsize) hbehind (cs.length + 1 + k) (by omega)
      refine ⟨mid, hmid, hle'.trans hle, reads_weaken (reads_manyWithin_cons hread hmore) fun as has => ?_⟩
      obtain ⟨c', cs', rfl, hc', hcs'⟩ := has
      exact .cons hc' hcs'
  have hpieces := length_le_pieces cs
  have hcount := h.length_le
  rw [List.length_append] at hcount
  obtain ⟨mid, hmid, hle, hread⟩ := hwithin (f.size + 1) (by omega)
  exact ⟨mid, hmid, hle, reads_many hread⟩

end Grammar

end XQuerySyntax
