import XQuerySyntax.Grammar.Declaration
import XQuerySyntax.Proofs.Comparison.Statement

/-! Words that say what a function may do. Two runs follow where such a word can stand, through
settings that are not there and through annotations, up to the word. If it belongs to the dropped
extension the second run takes it for something else; the first run has then read a function that may
do what the word says, or it stops. -/

namespace XQuerySyntax

open XQuerySyntax.Parser

variable {α β : Type} {p : Parser α}

/-- The parser does not move. -/
def Silent (p : Parser α) : Prop := ∀ s a s₁, p s = .ok a s₁ → s₁.scan = s.scan

theorem silent_pure (a : α) : Silent (pure a) := by
  rintro s _ _ ⟨⟩
  rfl

theorem silent_modify {f : ParserState → ParserState} (hf : ∀ s, (f s).scan = s.scan) :
    Silent (modify f) := by
  rintro s _ _ ⟨⟩
  exact hf s

theorem silent_read (f : ParserState → α) : Silent (do return f (← get)) := by
  rintro s _ _ ⟨⟩
  rfl

theorem silent_observe (f : Matcher → α) {there : Matcher → Bool} : Silent (observe f there) := by
  rintro s _ _ ⟨⟩
  rfl

theorem Silent.bind {next : α → Parser β} (h : Silent p) (hn : ∀ a, Silent (next a)) :
    Silent (p >>= next) := by
  intro s b s₂ hr
  change EStateM.bind p next s = .ok b s₂ at hr
  unfold EStateM.bind at hr
  cases hp : p s with
  | error e s₁ =>
    rw [hp] at hr
    cases hr
  | ok a s₁ =>
    rw [hp] at hr
    exact (hn a s₁ b s₂ hr).trans (h s a s₁ hp)

theorem silent_ite {c : Prop} [Decidable c] {no : Parser α} (hy : Silent p) (hn : Silent no) :
    Silent (if c then p else no) := by
  split
  · exact hy
  · exact hn

theorem silent_record (code : ErrorCode) (offset : Nat) (message : String) :
    Silent (record code offset message) := silent_modify fun _ => rfl

theorem silent_resolveName (name : LexicalName) (default : Option String) (offset : Nat) :
    Silent (Grammar.resolveName name default offset) := by
  have hqualifier (q : String) : Silent (Grammar.resolveQualifier q offset) := by
    refine (silent_read _).bind fun uri => silent_ite ?_ (silent_pure _)
    exact (silent_record _ _ _).bind fun _ => silent_pure _
  unfold Grammar.resolveName
  cases name.qualifier with
  | some q => exact (hqualifier q).bind fun _ => silent_pure _
  | none => exact silent_pure _

theorem scan_of_eat {r : Rule} {matched : Bool} {s s₁ : ParserState} (h : eat r s = .ok matched s₁) :
    Scan.eat r s.scan = .ok matched s₁.scan := by
  unfold eat scan at h
  split at h <;> cases h
  assumption

namespace Comparison

variable {S : Comparison} {shown : Prop} {L : S.Likeness α} {M : S.Likeness β} {p' : Parser α}
  {Q : α → ParserState → ParserState → Prop}

/-- The runs are at the same place, and a word that says what a function may do can stand there. -/
def Here (S : Comparison) (s s' : ParserState) : Prop := S.Near .behind s s' ∧ S.Declaring s.scan

/-- A parser that does not move leaves a place known. -/
theorem Agree.placed {P : ParserState → ParserState → Prop} {place : Matcher → Prop}
    (h : S.Agree shown P p p' L Q) (hp : Silent p) :
    S.Agree shown (fun s s' => P s s' ∧ place s.scan) p p' L fun a s s' => Q a s s' ∧ place s.scan := by
  refine (h.pre fun _ _ hP => hP.1).beside fun s s' a s₁ hP hr => ?_
  rw [hp s a s₁ hr]
  exact hP.2

/-- Before an annotation or a word about a function, or behind a rule that can stand there. -/
def Opened (S : Comparison) (s s' : ParserState) : Prop := S.Fresh .behind s s' ∧ S.Declaring s.scan

theorem Agree.opened (h : S.Agree shown S.Here p p' L Q) : S.Agree shown S.Opened p p' L Q :=
  h.pre fun _ _ h => ⟨h.1.1, h.2⟩

section

variable {r : Rule} {yes yes' no no' : Parser α}

/-- Behind one of the rules in front of a word about a function. -/
theorem opened_eat (hr : r ∈ Terminal.beforeFunctionKind) :
    S.Agree False (S.Near .behind) (eat r) (eat r) .plain
      fun matched s s' => S.Matched .behind matched s s' ∧ (matched = true → S.Declaring s.scan) := by
  have hcore : ∀ r ∈ Terminal.beforeFunctionKind, r.extension = .core := by decide
  refine (fresh_eat (by simp [hcore r hr])).beside ?_
  rintro s s' _ s₁ h heat rfl
  exact S.declaring_eat hr h.scan (scan_of_eat heat)

theorem here_expect (hr : r ∈ Terminal.beforeFunctionKind) :
    S.Agree False (S.Near .behind) (expect r) (expect r) .plain fun _ => S.Here := by
  refine .then (opened_eat hr) ?_
  rintro (_ | _)
  · exact (agree_unexpected _).pre fun _ _ h => h.1
  · exact .pure rfl Iff.rfl fun _ _ h => ⟨h.1.1, h.2 rfl⟩

/-- A rule that does not match leaves the place as it was. -/
theorem Agree.unmatched {N : Bool → ParserState → ParserState → Prop} {L : S.Likeness Bool}
    (h : S.Agree shown (S.Near .behind) (eat r) (eat r) L N) :
    S.Agree shown S.Here (eat r) (eat r) L
      fun matched s s' => N matched s s' ∧ (matched = false → S.Declaring s.scan) := by
  refine (h.pre fun _ _ h => h.1).beside ?_
  rintro s s' _ s₁ hP heat rfl
  have hsame := Scan.samePlace_of_eat (scan_of_eat heat)
  exact S.declaring_of_samePlace hsame hP.2

/-- A production that goes one way if a rule matches. If it does not, the place is as before. -/
theorem uses_ifHere {x : Extension} (hx : r.extension = x)
    (hy : S.Agree (shown ∨ S.Drops x) (S.Fresh .behind) yes yes' L Q)
    (hn : S.Agree shown S.Here no no' L Q) :
    S.Agree shown S.Here (eat r >>= fun matched => if matched then yes else no)
      (eat r >>= fun matched => if matched then yes' else no') L Q := by
  subst hx
  refine (uses_eat r).unmatched.bind ?_
  rintro (_ | _) _ rfl
  · exact (hn.pre fun _ _ h => ⟨h.1, h.2 rfl⟩).shows (by simp [Likeness.marked, Likeness.plain])
  · exact (hy.pre fun _ _ h => h.1).shows (by simp [Likeness.marked, Likeness.plain])

theorem agree_ifHere (hr : ¬S.Drops r.extension) (hy : S.Agree shown (S.Fresh .behind) yes yes' L Q)
    (hn : S.Agree shown S.Here no no' L Q) :
    S.Agree shown S.Here (eat r >>= fun matched => if matched then yes else no)
      (eat r >>= fun matched => if matched then yes' else no') L Q :=
  uses_ifHere rfl (hy.shows (or_iff_left hr).symm) hn

/-- A production that goes one way behind a rule that can stand in front of a word about a function, and
another way if the rule does not match. -/
theorem agree_ifOpens (hr : r ∈ Terminal.beforeFunctionKind)
    (hy : S.Agree shown S.Opened yes yes' L Q) (hn : S.Agree shown S.Here no no' L Q) :
    S.Agree shown S.Here (eat r >>= fun matched => if matched then yes else no)
      (eat r >>= fun matched => if matched then yes' else no') L Q := by
  refine .then (opened_eat hr).unmatched ?_
  rintro (_ | _)
  · exact hn.pre fun _ _ h => ⟨h.1.1, h.2 rfl⟩
  · exact hy.pre fun _ _ h => ⟨h.1.1, h.1.2 rfl⟩

end

end Comparison

namespace Grammar

open Comparison

variable {S : Comparison}

/-! ### Annotations -/

theorem here_annotationLiterals :
    S.Agree False S.Here annotationLiterals annotationLiterals .plain fun _ => S.Here := by
  refine agree_ifHere S.core_kept (.settle (t := .behind) ?_) (.plain _)
  refine .then (agree_separatedPlain S.core_kept pairs_annotationLiteral) fun values => ?_
  exact .then (here_expect (by simp [Terminal.beforeFunctionKind])) fun _ => .plain _

theorem here_annotation? : S.Agree False S.Here annotation? annotation? (.option (.prod .plain S.offset))
    fun _ => S.Here := by
  refine agree_ifOpens (by simp [Terminal.beforeFunctionKind]) ?_ .absent
  have hread : S.Agree False S.Opened
      (do
        let offset ← start
        let name ← resolveName (← capturedQualifiedName 0) (some Namespaces.annotations) offset
        return (AnnotationDecl.mk name (← annotationLiterals), offset))
      (do
        let offset ← start
        let name ← resolveName (← capturedQualifiedName 0) (some Namespaces.annotations) offset
        return (AnnotationDecl.mk name (← annotationLiterals), offset))
      (.prod .plain S.offset) fun _ => S.Here := by
    refine .seq (agree_start.placed (silent_observe _)) fun o o' ho => ?_
    refine .then ((agree_capturedQualifiedName 0).placed (silent_observe _)) fun name => .opened ?_
    refine .then ((pairs_resolveName ho name _ .behind).placed (silent_resolveName _ _ _)) fun name => ?_
    exact .then here_annotationLiterals fun _ => .give ⟨rfl, ho⟩ (by simp)
  exact .found hread

theorem here_annotationList :
    S.Agree False S.Here annotationList annotationList .plain fun _ => S.Here := by
  refine agree_iterateOn (L := .plain) (fun _ _ h => h.1) ?_ rfl
  rintro annotations _ rfl
  refine .andThen here_annotation? ?_
  rintro _ _ (@⟨⟨a, o⟩, ⟨_, o'⟩, ⟨rfl, ho⟩⟩ | _)
  · refine .shows (K := False) (.ite (fun _ => ?_) fun _ => .give rfl (by simp)) (by simp)
    refine .then ((pairs_record ho _ _ .behind).placed (silent_record _ _ _)) fun _ => .give rfl (by simp)
  · exact .give rfl (by simp)

/-! ### The word -/

/-- The two ways of a production behind a rule. -/
theorem ifEat_eq {α : Type} (r : Rule) (yes no : Parser α) (s : ParserState) :
    (eat r >>= fun matched => if matched then yes else no : Parser α) s =
      match Scan.eat r s.scan with
      | .ok true m => yes { s with scan := m }
      | .ok false m => no { s with scan := m }
      | .error d m => .error (.fatal d) { s with scan := m } := by
  change EStateM.bind (eat r) _ s = _
  unfold EStateM.bind eat scan
  cases Scan.eat r s.scan with
  | error d m => rfl
  | ok matched m => cases matched <;> rfl

theorem bind_eatFirst_nil {α β : Type} (next : Option α → Parser β) : eatFirst [] >>= next = next none := rfl

theorem bind_eatFirst_cons {α β : Type} (entry : Rule × α) (table : List (Rule × α))
    (next : Option α → Parser β) : eatFirst (entry :: table) >>= next =
      eat entry.1 >>= fun matched => if matched then next (some entry.2) else eatFirst table >>= next := by
  rw [eatFirst, bind_assoc]
  refine congrArg (eat entry.1 >>= ·) (funext fun matched => ?_)
  cases matched <;> rfl

section

variable {α : Type} {L : S.Likeness α} {Q : α → ParserState → ParserState → Prop}

/-- A word about a function, if the second run may lack it. It has not been read in front of a variable. -/
theorem agree_kindWord {r : Rule} {yes no : Parser α} (hr : r ∈ Terminal.functionKinds)
    (hy : ¬S.Drops r.extension → S.Agree False (S.Near .behind) yes yes L Q)
    (hspoiled : ∀ s a s₁, s.Spoiled → yes s = .ok a s₁ → s₁.Spoiled)
    (hlost : S.Drops r.extension → r ≠ Terminal.declareSimple → S.on → ∀ s a s₁,
      (∀ m, Scan.eat Terminal.declareVariable s.scan ≠ .ok true m) → yes s = .ok a s₁ →
      S.Lost (L.owes a) s₁)
    (hn : S.Agree False S.Here no no L Q) :
    S.Agree False S.Here (eat r >>= fun matched => if matched then yes else no)
      (eat r >>= fun matched => if matched then yes else no) L Q := by
  by_cases hd : S.Drops r.extension
  rotate_left
  · exact agree_ifHere hd (.settle (t := .behind) (hy hd)) hn
  refine ⟨fun s a s₂ hs hrun => ?_, fun _ s s' hs => ?_⟩
  · rw [ifEat_eq] at hrun
    split at hrun
    · obtain ⟨hon, hf | hspoilt⟩ := hs
      · exact hf.elim
      · exact ⟨hon, .inr ((hspoiled _ a s₂ · hrun) hspoilt)⟩
    · exact (hn.lost _ a s₂ · hrun) hs
    · cases hrun
  · obtain ⟨m', heat', hsecond⟩ := S.eat_dropped hd hs.1.scan
    rw [ifEat_eq, ifEat_eq, heat']
    cases heat : Scan.eat r s.scan with
    | error d m =>
      exact fun hstrict => (hd.2 (hd.1.symm.trans (S.core_of_strict hstrict))).elim
    | ok matched m =>
      have hm := hsecond matched m heat
      cases matched with
      | true =>
        have hon : S.on := hm
        obtain ⟨hsimple, hvariable⟩ := S.functionKind hon hr hd hs.2 hs.1.scan heat
        dsimp only
        cases hrun : yes { s with scan := m } with
        | error e s₂ => exact Stops.of_on hon _ e s₂
        | ok a s₂ => exact .inl (hlost hd hsimple hon _ a s₂ hvariable hrun)
      | false =>
        have hsame := Scan.samePlace_of_eat heat
        exact hn.follows not_false _ _ ⟨{ hs.1 with scan := hm }, S.declaring_of_samePlace hsame hs.2⟩

/-- What a function may do, and what follows. -/
theorem agree_functionKind {next : FunctionKind → Parser α}
    (hnext : ∀ kind, ¬S.Drops kind.belongsTo → S.Agree False (S.Near .behind) (next kind) (next kind) L Q)
    (hspoiled : ∀ kind s a s₁, s.Spoiled → next kind s = .ok a s₁ → s₁.Spoiled)
    (hlost : ∀ kind, S.Drops kind.belongsTo → S.on → ∀ s a s₁,
      (∀ m, Scan.eat Terminal.declareVariable s.scan ≠ .ok true m) → next kind s = .ok a s₁ →
      S.Lost (L.owes a) s₁) :
    S.Agree False S.Here (functionKind >>= next) (functionKind >>= next) L Q := by
  have hword (r : Rule) (hr : r ∈ Terminal.functionKinds) (kind : FunctionKind)
      (hkind : r.extension = kind.belongsTo ∨ r = Terminal.declareSimple ∧ kind = .simple)
      {no : Parser α} (hn : S.Agree False S.Here no no L Q) :
      S.Agree False S.Here (eat r >>= fun matched => if matched then next kind else no)
        (eat r >>= fun matched => if matched then next kind else no) L Q := by
    refine agree_kindWord hr (fun hd => hnext kind ?_) (hspoiled kind) (fun hd hs => hlost kind ?_) hn
    · rcases hkind with hkind | ⟨-, rfl⟩
      · exact hkind ▸ hd
      · exact S.core_kept
    · exact (hkind.resolve_right fun h => hs h.1) ▸ hd
  have hfunction : functionKind >>= next =
      eat Terminal.declareUpdating >>= fun matched => if matched then next .updating else
        eat Terminal.declareSequential >>= fun matched => if matched then next .sequential else
          eat Terminal.declareSimple >>= fun matched => if matched then next .simple else next .simple := by
    unfold functionKind
    rw [bind_assoc]
    simp only [bind_eatFirst_cons, bind_eatFirst_nil, pure_bind]
    rfl
  rw [hfunction]
  refine hword _ (by simp [Terminal.functionKinds]) .updating (.inl rfl) ?_
  refine hword _ (by simp [Terminal.functionKinds]) .sequential (.inl rfl) ?_
  refine hword _ (by simp [Terminal.functionKinds]) .simple (.inr ⟨rfl, rfl⟩) ?_
  exact (hnext .simple S.core_kept).pre fun _ _ h => h.1

end

end Grammar

end XQuerySyntax
