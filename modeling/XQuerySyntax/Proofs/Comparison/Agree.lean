import XQuerySyntax.Proofs.Comparison.Comparison
import XQuerySyntax.Proofs.Contract

/-! Two runs that agree. Begun in states that have enough in common, the second run answers what the
first one answers, in a state that again has enough in common with that of the first; unless the first
run has used the extension that the second one lacks, and then its answer shows it. -/

namespace XQuerySyntax

/-- States of parsing, with what belongs to an importer or without. -/
class Parsing (τ : Type) where
  parser : τ → ParserState

instance : Parsing ParserState := ⟨id⟩

instance {τ σ : Type} [Parsing τ] : Parsing (τ × σ) := ⟨fun s => Parsing.parser s.1⟩

namespace Comparison

open Parsing XQuerySyntax.Parser

variable (S : Comparison) {α β σ τ : Type} [Parsing τ]

/-- The states of two runs that have come equally far. -/
structure Near (t : Stage) (s s' : ParserState) : Prop where
  scan : S.Scans t s.scan s'.scan
  context : S.Contexts s.context s'.context
  recorded : S.Records s.recorded s'.recorded
  module : s'.module = s.module
  depth : s'.depth = s.depth
  limit : s.maxDepth = S.limit
  limit_le : S.limit ≤ s'.maxDepth
  limit_eq : ¬S.raised → s'.maxDepth = S.limit
  libraryNamespace : S.exact → s'.libraryNamespace = s.libraryNamespace
  declaredPrefixes : S.exact → s'.declaredPrefixes = s.declaredPrefixes

/-- The last match of the two runs has captured the same. -/
def Fresh (t : Stage) (s s' : ParserState) : Prop :=
  S.Near t s s' ∧ s'.scan.captures = s.scan.captures

/-- The first run has gone where the second cannot follow: it has used the dropped extension, as what
it has read so far shows, or it has dropped an expression from the tree. -/
def Lost (shown : Prop) (s : τ) : Prop := S.on ∧ (shown ∨ (parser s).Spoiled)

/-- An answer of the first run shows that it is lost, or the second run gives a like answer. -/
def Answers (L : S.Likeness α) (Q : α → τ → τ → Prop) (r : EStateM.Result Stop τ α) (a : α) (s : τ) :
    Prop :=
  S.Lost (L.owes a) s ∨ ¬L.owes a ∧ ∃ a' s', r = .ok a' s' ∧ L.like a a' ∧ Q a s s'

/-- If the first run stops, then because its limit on nesting is lower, or the second run stops with the
same error and like diagnostics recorded. -/
def Stops (r : EStateM.Result Stop τ α) (e : Stop) (s : τ) : Prop :=
  S.strict → (S.raised ∧ ∃ offset, e = .fatal (.nesting S.limit offset)) ∨
    ∃ s', r = .error e s' ∧ S.Records (parser s).recorded (parser s').recorded ∧
      (parser s').module = (parser s).module

/-- What has been read so far may show that the extension has been used. A first run that is lost stays
lost. If nothing is shown and the states have enough in common, the second run follows the first one. -/
structure Agree (shown : Prop) (P : τ → τ → Prop) (p p' : EStateM Stop τ α) (L : S.Likeness α)
    (Q : α → τ → τ → Prop) : Prop where
  lost : ∀ s a s₁, S.Lost shown s → p s = .ok a s₁ → S.Lost (L.owes a) s₁
  follows : ¬shown → ∀ s s', P s s' → Ends (S.Answers L Q (p' s')) (S.Stops (p' s')) (p s)

/-- The runs agree from everywhere, and do not lose what they have in common of the place. -/
def PairsOn (shown : Prop) (L : S.Likeness α) (p p' : Parser α) : Prop :=
  ∀ t, S.Agree shown (S.Near t) p p' L fun _ => S.Near t

/-- The runs agree from everywhere. -/
abbrev Pairs (L : S.Likeness α) (p p' : Parser α) : Prop := S.PairsOn False L p p'

variable {S} {t : Stage} {shown : Prop} {P P' : τ → τ → Prop} {L : S.Likeness α}
  {M : S.Likeness β} {Q Q' : α → τ → τ → Prop} {R : β → τ → τ → Prop}

theorem Near.unseen {s s' : ParserState} (h : S.Near t.seen s s') : S.Near t s s' :=
  { h with scan := S.scans_of_seen h.scan }

theorem Near.fresh_seen {s s' : ParserState} (h : S.Fresh t.seen s s') : S.Near t s s' := h.1.unseen

theorem Near.behind {s s' : ParserState} (h : S.Near .behind s s') : S.Near t s s' :=
  { h with scan := S.scans_of_behind h.scan }

theorem Near.of_fresh {s s' : ParserState} (h : S.Fresh .behind s s') : S.Near t s s' := h.1.behind

theorem Stops.of_on (hon : S.on) (r : EStateM.Result Stop τ α) (e : Stop) (s : τ) :
    S.Stops r e s := fun hs => (S.not_strict hon hs).elim

/-! ### Composition -/

namespace Agree

variable {p p' : EStateM Stop τ α} {next next' : α → EStateM Stop τ β}

/-- Weakening, with the same things shown. -/
theorem weaken (h : S.Agree shown P p p' L Q) (hpre : ∀ s s', P' s s' → P s s')
    (hpost : ∀ a s s', Q a s s' → Q' a s s') : S.Agree shown P' p p' L Q' := by
  refine ⟨h.lost, fun hn s s' hp => ?_⟩
  have hends := h.follows hn s s' (hpre s s' hp)
  cases hr : p s with
  | error e s₁ =>
    rw [hr] at hends
    exact hends
  | ok a s₁ =>
    rw [hr] at hends
    rcases hends with hlost | ⟨howes, a', s₁', hr', hlike, hq⟩
    · exact .inl hlost
    · exact .inr ⟨howes, a', s₁', hr', hlike, hpost a s₁ s₁' hq⟩

theorem pre (h : S.Agree shown P p p' L Q) (hpre : ∀ s s', P' s s' → P s s') :
    S.Agree shown P' p p' L Q := h.weaken hpre fun _ _ _ hq => hq

theorem post (h : S.Agree shown P p p' L Q) (hpost : ∀ a s s', Q a s s' → Q' a s s') :
    S.Agree shown P p p' L Q' := h.weaken (fun _ _ hp => hp) hpost

/-- What has been shown may be said in other words. -/
theorem shows {K : Prop} (h : S.Agree K P p p' L Q) (hi : K ↔ shown) : S.Agree shown P p p' L Q :=
  propext hi ▸ h

/-- What is read with something shown is read all the more if nothing is shown. -/
theorem unshown (h : S.Agree shown P p p' L Q) (hn : ¬shown) : S.Agree False P p p' L Q :=
  h.shows (iff_false_intro hn)

/-- What answers have in common may be said in other words. -/
theorem relike {L' : S.Likeness α} (h : S.Agree shown P p p' L Q)
    (hl : ∀ a a', L.like a a' → L'.like a a') (ho : ∀ a, L'.owes a ↔ L.owes a) :
    S.Agree shown P p p' L' Q := by
  have howes : L'.owes = L.owes := funext fun a => propext (ho a)
  refine ⟨fun s a s₁ hlost hr => howes ▸ h.lost s a s₁ hlost hr, fun hn s s' hP => ?_⟩
  have hends := h.follows hn s s' hP
  cases hr : p s with
  | error e s₁ =>
    rw [hr] at hends
    exact hends
  | ok a s₁ =>
    rw [hr] at hends
    rcases hends with hlost | ⟨hfree, a', s₁', hr', hlike, hq⟩
    · exact .inl (howes ▸ hlost)
    · exact .inr ⟨howes ▸ hfree, a', s₁', hr', hl a a' hlike, hq⟩

/-- An answer is given by both runs. It shows what has been shown so far. -/
theorem pure {a a' : α} (hl : L.like a a') (ho : L.owes a ↔ shown)
    (hq : ∀ s s', P s s' → Q a s s') : S.Agree shown P (Pure.pure a) (Pure.pure a') L Q where
  lost := by
    rintro s _ _ hlost ⟨⟩
    exact hlost.imp_right (Or.imp_left ho.2)
  follows hn s s' hp := .inr ⟨mt ho.1 hn, a', s', rfl, hl, hq s s' hp⟩

/-- Both runs give an answer and stay where they are. -/
theorem give {a a' : α} (hl : L.like a a') (ho : L.owes a ↔ shown) :
    S.Agree shown P (Pure.pure a) (Pure.pure a') L fun _ => P := pure hl ho fun _ _ h => h

/-- One run behind another: the second goes on from what the answer of the first shows. -/
theorem andThen (h : S.Agree shown P p p' L Q)
    (hn : ∀ a a', L.like a a' → S.Agree (L.owes a) (Q a) (next a) (next' a') M R) :
    S.Agree shown P (p >>= next) (p' >>= next') M R where
  lost := by
    intro s b s₂ hlost hr
    change EStateM.bind p next s = .ok b s₂ at hr
    unfold EStateM.bind at hr
    cases hp : p s with
    | error e s₁ =>
      rw [hp] at hr
      cases hr
    | ok a s₁ =>
      rw [hp] at hr
      exact (hn a a (L.refl hlost.1 a)).lost s₁ b s₂ (h.lost s a s₁ hlost hp) hr
  follows := by
    intro hs s s' hP
    have hends := h.follows hs s s' hP
    change Ends (S.Answers M R (EStateM.bind p' next' s')) (S.Stops (EStateM.bind p' next' s'))
      (EStateM.bind p next s)
    unfold EStateM.bind
    cases hp : p s with
    | error e s₁ =>
      rw [hp] at hends
      intro hstrict
      rcases hends hstrict with hnesting | ⟨s₁', hr', hrecorded, hmodule⟩
      · exact .inl hnesting
      · exact .inr ⟨s₁', by rw [hr'], hrecorded, hmodule⟩
    | ok a s₁ =>
      rw [hp] at hends
      rcases hends with hlost | ⟨howes, a', s₁', hr', hlike, hq⟩
      · dsimp only
        cases hb : next a s₁ with
        | error e s₂ => exact Stops.of_on hlost.1 _ e s₂
        | ok b s₂ => exact .inl ((hn a a (L.refl hlost.1 a)).lost s₁ b s₂ hlost hb)
      · rw [hr']
        exact (hn a a' hlike).follows howes s₁ s₁' hq

/-- What has been shown before stays shown. The run has to be looked at only if it has not. -/
theorem keep {kept : Prop} (h : ¬kept → S.Agree shown P p p' L Q) :
    S.Agree (shown ∨ kept) P p p' (.marked L fun _ => kept) Q := by
  by_cases hk : kept
  · exact ⟨fun s a s₁ hlost _ => ⟨hlost.1, .inl (.inl hk)⟩, fun hn => (hn (.inr hk)).elim⟩
  · have hkeep : S.Agree shown P p p' (.marked L fun _ => kept) Q :=
      (h hk).relike (fun _ _ hl => hl) fun _ => or_iff_right hk
    exact hkeep.shows (or_iff_left hk).symm

/-- A run that follows another one may be followed by a run that depends on its answer. The first of
them has to be looked at only if what is kept has not been shown before it. -/
theorem bindKeep {K : Prop} (h : ¬K → S.Agree shown P p p' L Q)
    (hn : ∀ a a', L.like a a' → S.Agree (K ∨ L.owes a) (Q a) (next a) (next' a') M R) :
    S.Agree (shown ∨ K) P (p >>= next) (p' >>= next') M R := (keep h).andThen hn

theorem bindIf (h : ¬shown → S.Agree False P p p' L Q)
    (hn : ∀ a a', L.like a a' → S.Agree (shown ∨ L.owes a) (Q a) (next a) (next' a') M R) :
    S.Agree shown P (p >>= next) (p' >>= next') M R :=
  (bindKeep h hn).shows (by rw [false_or])

theorem bind (h : S.Agree False P p p' L Q)
    (hn : ∀ a a', L.like a a' → S.Agree (shown ∨ L.owes a) (Q a) (next a) (next' a') M R) :
    S.Agree shown P (p >>= next) (p' >>= next') M R := bindIf (fun _ => h) hn

/-- Behind an answer that shows nothing. -/
theorem seq [L.Free] (h : S.Agree False P p p' L Q)
    (hn : ∀ a a', L.like a a' → S.Agree shown (Q a) (next a) (next' a') M R) :
    S.Agree shown P (p >>= next) (p' >>= next') M R :=
  h.bind fun a a' hl => (hn a a' hl).shows (or_iff_left (Likeness.Free.not_owes a)).symm

/-- Behind an answer that is the same in both runs. -/
theorem «then» (h : S.Agree False P p p' .plain Q)
    (hn : ∀ a, S.Agree shown (Q a) (next a) (next' a) M R) :
    S.Agree shown P (p >>= next) (p' >>= next') M R :=
  h.seq fun a _ hl => hl ▸ hn a

theorem thenIf (h : ¬shown → S.Agree False P p p' .plain Q)
    (hn : ∀ a, S.Agree shown (Q a) (next a) (next' a) M R) :
    S.Agree shown P (p >>= next) (p' >>= next') M R :=
  bindIf h fun a _ hl => hl ▸ (hn a).shows (or_iff_left id).symm

theorem ite {c : Prop} [Decidable c] {no no' : EStateM Stop τ α}
    (hy : c → S.Agree shown P p p' L Q) (hn : ¬c → S.Agree shown P no no' L Q) :
    S.Agree shown P (if c then p else no) (if c then p' else no') L Q := by
  split
  · exact hy ‹_›
  · exact hn ‹_›

theorem map {f f' : α → β} (h : S.Agree False P p p' L Q)
    (hl : ∀ a a', L.like a a' → M.like (f a) (f' a')) (ho : ∀ a, M.owes (f a) ↔ L.owes a)
    (hq : ∀ a s s', Q a s s' → R (f a) s s') : S.Agree False P (f <$> p) (f' <$> p') M R := by
  change S.Agree False P (p >>= fun a => Pure.pure (f a)) (p' >>= fun a => Pure.pure (f' a)) _ _
  refine h.bind fun a a' hlike => pure (hl a a' hlike) ?_ (hq a)
  rw [ho, false_or]

theorem mapPlain {f : α → β} {R : τ → τ → Prop} (h : S.Agree False P p p' .plain fun _ => R) :
    S.Agree False P (f <$> p) (f <$> p') .plain fun _ => R :=
  h.map (fun _ _ hl => congrArg f hl) (fun _ => Iff.rfl) fun _ _ _ hR => hR

theorem plain (a : α) : S.Agree False P (Pure.pure a) (Pure.pure a) .plain fun _ => P :=
  pure rfl Iff.rfl fun _ _ h => h

/-- An answer that is there. -/
theorem found {R : τ → τ → Prop} (h : S.Agree shown P p p' L fun _ => R) :
    S.Agree shown P (p >>= fun a => Pure.pure (some a)) (p' >>= fun a => Pure.pure (some a)) L.option
      fun _ => R :=
  h.andThen fun _ _ hl => give (.some hl) (by simp [Likeness.option])

/-- An answer that is not there. -/
theorem absent : S.Agree False P (Pure.pure none) (Pure.pure none) L.option fun _ => P :=
  give .none (by simp [Likeness.option])

/-- What is known of the first run apart. -/
theorem beside {J : α → τ → Prop} (h : S.Agree shown P p p' L Q)
    (hJ : ∀ s s' a s₁, P s s' → p s = .ok a s₁ → J a s₁) :
    S.Agree shown P p p' L fun a s s' => Q a s s' ∧ J a s := by
  refine ⟨h.lost, fun hn s s' hP => ?_⟩
  have hends := h.follows hn s s' hP
  cases hr : p s with
  | error e s₁ =>
    rw [hr] at hends
    exact hends
  | ok a s₁ =>
    rw [hr] at hends
    rcases hends with hlost | ⟨howes, a', s₁', hr', hlike, hq⟩
    · exact .inl hlost
    · exact .inr ⟨howes, a', s₁', hr', hlike, hq, hJ s s' a s₁ hP hr⟩

/-- A fact that does not depend on the runs stays known. -/
theorem frame {fact : Prop} (h : S.Agree shown P p p' L Q) :
    S.Agree shown (fun s s' => P s s' ∧ fact) p p' L fun a s s' => Q a s s' ∧ fact :=
  (h.pre fun _ _ hP => hP.1).beside fun _ _ _ _ hP _ => hP.2

/-- A step of both runs that records at most more and shows nothing by itself. -/
theorem of_step (hrecorded : ∀ s a s₁, p s = .ok a s₁ → (parser s).recorded ⊆ (parser s₁).recorded)
    (hfollows : ∀ s s', P s s' → Ends (S.Answers L Q (p' s')) (S.Stops (p' s')) (p s)) :
    S.Agree False P p p' L Q where
  lost := by
    rintro s a s₁ ⟨hon, hf | ⟨d, hd, hcode⟩⟩ hr
    · exact hf.elim
    · exact ⟨hon, .inr ⟨d, hrecorded s a s₁ hr hd, hcode⟩⟩
  follows _ := hfollows

end Agree

section

variable {p p' : Parser α} {Q : α → ParserState → ParserState → Prop}

/-- What was captured last is of no use any more. -/
theorem Agree.settle (h : S.Agree shown (S.Near t) p p' L Q) :
    S.Agree shown (S.Fresh .behind) p p' L Q := h.pre fun _ _ h => .of_fresh h

/-- What a test has captured is of no use any more. -/
theorem Agree.unsee (h : S.Agree shown (S.Near t) p p' L Q) :
    S.Agree shown (S.Fresh t.seen) p p' L Q := h.pre fun _ _ h => Near.fresh_seen h

end

/-! ### Reading and changing the state -/

/-- What two runs find in their states. -/
theorem Agree.look {next next' : α → EStateM Stop τ β} {f : τ → α}
    (hf : ∀ s s', P s s' → L.like (f s) (f s'))
    (hn : ∀ a a', L.like a a' → S.Agree shown P (next a) (next' a') M R) :
    S.Agree shown P (get >>= fun s => next (f s)) (get >>= fun s => next' (f s)) M R where
  lost s b s₂ hlost hr := (hn (f s) (f s) (L.refl hlost.1 _)).lost s b s₂ hlost hr
  follows hs s s' hP := (hn (f s) (f s') (hf s s' hP)).follows hs s s' hP

section

variable {next next' : α → Parser β} {s s' : ParserState} {P : ParserState → ParserState → Prop}
  {Q : α → ParserState → ParserState → Prop} {R : β → ParserState → ParserState → Prop}

theorem agree_observe {f : Matcher → α} (hfree : ∀ a, ¬L.owes a)
    (hf : ∀ s s', P s s' → L.like (f s.scan) (f s'.scan)) :
    S.Agree False P (observe f fun _ => true) (observe f fun _ => true) L fun _ => P := by
  have hlook : (observe f fun _ => true) = (do return f (← get).scan : Parser α) := rfl
  rw [hlook]
  exact Agree.look hf fun a _ hl => Agree.pure hl (iff_false_intro (hfree a)) fun _ _ h => h

/-- The position is the same at least in a strict comparison. -/
theorem agree_position :
    S.Agree False (S.Near t) (observe (·.cursor.pos) fun _ => true)
      (observe (·.cursor.pos) fun _ => true) .strictly fun _ => S.Near t :=
  agree_observe (fun _ h => h) fun _ _ h hs => (S.abreast_of_strict hs h.scan).pos

theorem agree_modify {f f' : ParserState → ParserState}
    {Q : PUnit → ParserState → ParserState → Prop} (hrecorded : ∀ s, s.recorded ⊆ (f s).recorded)
    (hf : ∀ s s', P s s' → Q ⟨⟩ (f s) (f' s')) :
    S.Agree False P (modify f) (modify f') .plain Q := by
  refine Agree.of_step ?_ fun s s' hP => .inr ⟨not_false, ⟨⟩, f' s', rfl, rfl, hf s s' hP⟩
  rintro s _ _ ⟨⟩
  exact hrecorded s

/-- Offsets of the two runs that belong to the same place. -/
def offset (S : Comparison) : S.Likeness Nat := .moving (fun f n => f n) fun _ => False

instance : S.offset.Free := ⟨fun _ => id⟩

theorem agree_start : S.Agree False (S.Fresh .behind) start start S.offset fun _ => S.Fresh .behind :=
  agree_observe (fun _ h => h) fun _ _ h => S.like_tokenStart (S.scans_of_behind h.1.scan)

theorem agree_start_seen :
    S.Agree False (S.Near t.seen) start start S.offset fun _ => S.Near t.seen := by
  refine agree_observe (fun _ h => h) fun _ _ h => S.like_tokenStart ?_
  cases t with
  | behind => exact S.scans_of_behind h.scan
  | _ => exact h.scan

theorem pairs_nextOffset : S.Pairs S.offset nextOffset nextOffset :=
  fun _ => agree_observe (fun _ h => h) fun _ _ h => S.like_nextOffset h.scan

/-- What the last match has captured is the same in both runs. -/
theorem agree_captures (f : Captures → α) {there : Matcher → Bool} :
    S.Agree False (S.Fresh t) (observe (fun m => f m.captures) there)
      (observe (fun m => f m.captures) there) .plain fun _ => S.Fresh t := by
  refine Agree.of_step ?_ fun s s' h => .inr ⟨not_false, _, _, rfl, congrArg f h.2.symm, { h.1 with }, h.2⟩
  rintro s _ _ ⟨⟩
  exact fun _ h => h

theorem agree_capturedName (i : Nat) : S.Agree False (S.Fresh t) (capturedName i) (capturedName i)
    .plain fun _ => S.Fresh t := agree_captures fun captures => captures.name i

theorem agree_capturedQualifiedName (i : Nat) : S.Agree False (S.Fresh t) (capturedQualifiedName i)
    (capturedQualifiedName i) .plain fun _ => S.Fresh t :=
  agree_captures fun captures => captures.qualifiedName i

theorem agree_capturedString (i : Nat) : S.Agree False (S.Fresh t) (capturedString i)
    (capturedString i) .plain fun _ => S.Fresh t := agree_captures fun captures => captures.string i

theorem agree_capturedNumber? (i : Nat) : S.Agree False (S.Fresh t) (capturedNumber? i)
    (capturedNumber? i) .plain fun _ => S.Fresh t := agree_captures fun captures => captures.number? i

/-- What is looked up must not depend on the order of the namespaces. -/
theorem pairs_consult (f : StaticContext → α) (hf : ∀ c c', StaticContext.Alike c c' → f c' = f c) :
    S.Pairs .plain (consult f) (consult f) := by
  intro t
  have hlike (s s' : ParserState) (h : S.Near t s s') : f s.context = f s'.context :=
    (hf _ _ h.context.1).symm
  refine Agree.look (L := .plain) (f := fun s : ParserState => f s.context) hlike fun a _ ha => ?_
  exact Agree.pure ha Iff.rfl fun _ _ h => h

/-- A change that the order of the namespaces has no part in. -/
theorem pairs_amendAlike (f : StaticContext → StaticContext)
    (hf : ∀ c c', StaticContext.Alike c c' → StaticContext.Alike (f c) (f c')) :
    S.Pairs .plain (amend f) (amend f) :=
  fun _ => agree_modify (fun _ _ h => h) fun _ _ h => { h with
    context := ⟨hf _ _ h.context.1, fun hexact => congrArg f (h.context.2 hexact)⟩ }

theorem pairs_amend [S.Exact] (f : StaticContext → StaticContext) :
    S.Pairs .plain (amend f) (amend f) :=
  fun _ => agree_modify (fun _ _ h => h) fun _ _ h => { h with
    context := .of_eq (congrArg f h.context.eq) }

theorem pairs_amendGet [S.Exact] (f : StaticContext → α × StaticContext) :
    S.Pairs .plain (amendGet f) (amendGet f) := by
  intro t
  refine Agree.of_step ?_ fun s s' h => .inr ⟨not_false, (f s'.context).1, _, rfl, ?_, ?_⟩
  · rintro s _ _ ⟨⟩
    exact fun _ h => h
  · exact congrArg (fun c => (f c).1) h.context.eq.symm
  · exact { h with context := .of_eq (congrArg (fun c => (f c).2) h.context.eq) }

theorem pairs_note {d d' : Diagnostic} (hd : d.moved S.left = d'.moved S.right) :
    S.Pairs .plain (note d) (note d') := by
  exact fun t => agree_modify (fun s => List.subset_append_left _ _) fun s s' h => { h with
    recorded := h.recorded.concat hd }

theorem pairs_record {o o' : Nat} (ho : S.offset.like o o') (code : ErrorCode) (message : String) :
    S.Pairs .plain (record code o message) (record code o' message) :=
  pairs_note (congrArg (Diagnostic.mk code · message .error) ho)

theorem pairs_warn {o o' : Nat} (ho : S.offset.like o o') (code : ErrorCode) (message : String) :
    S.Pairs .plain (warn code o message) (warn code o' message) :=
  pairs_note (congrArg (Diagnostic.mk code · message .warning) ho)

/-- An error that is recorded under a condition. -/
theorem agree_recordIf {c : Prop} [Decidable c] {rest rest' : Parser α} {o o' : Nat}
    (ho : S.offset.like o o') {code : ErrorCode} {message : String}
    (hrest : S.Agree shown (S.Near t) rest rest' L Q) : S.Agree shown (S.Near t)
      (if c then record code o message >>= fun _ => rest else rest)
      (if c then record code o' message >>= fun _ => rest' else rest') L Q :=
  .ite (fun _ => .then (pairs_record ho code message t) fun _ => hrest) fun _ => hrest

/-! ### Stopping -/

theorem agree_throw {e e' : Stop} (he : S.strict → e' = e) :
    S.Agree shown (S.Near t) (throw e : Parser α) (throw e') L Q where
  lost _ _ _ _ h := nomatch h
  follows _ s s' h hstrict :=
    .inr ⟨s', by rw [he hstrict]; rfl, h.recorded, h.module⟩

/-- Offsets that belong to the same place are the same in a strict comparison. -/
theorem eq_of_offset {o o' : Nat} (ho : S.offset.like o o') (hs : S.strict) : o' = o := by
  obtain ⟨hleft, hright⟩ := S.id_of_strict hs
  change S.left o = S.right o' at ho
  rw [hleft, hright] at ho
  exact ho.symm

theorem agree_fatal {o o' : Nat} (ho : S.strict → o' = o) (code : ErrorCode) (message : String) :
    S.Agree shown (S.Near t) (fatal code o message : Parser α) (fatal code o' message) L Q :=
  agree_throw fun hs => by rw [ho hs]

theorem agree_exhausted : S.Agree shown (S.Near t) (exhausted : Parser α) exhausted L Q :=
  agree_throw fun _ => rfl

theorem agree_unexpected (expected : String) :
    S.Agree shown (S.Near t) (unexpected expected : Parser α) (unexpected expected) L Q where
  lost _ _ _ _ h := nomatch h
  follows _ s s' h hstrict := by
    refine .inr ⟨s', ?_, h.recorded, h.module⟩
    have habreast := S.abreast_of_strict hstrict h.scan
    have hstop (s : ParserState) : (unexpected expected : Parser α) s =
        .error (.fatal (.error .malformed s.scan.nextOffset
          ("expected " ++ expected ++ ", found " ++ s.scan.excerpt))) s := rfl
    rw [hstop, habreast.nextOffset, habreast.excerpt]
    rfl

/-- What would come behind a stop does not matter. -/
theorem agree_unexpectedThen {next next' : α → Parser β} (expected : String) :
    S.Agree shown (S.Near t) (unexpected expected >>= next) (unexpected expected >>= next') M R where
  lost _ _ _ _ h := nomatch h
  follows hn := (agree_unexpected expected : S.Agree shown (S.Near t) (unexpected expected : Parser β)
    (unexpected expected) M R).follows hn

/-! ### Scanning -/

/-- A scanning step that does the same in both runs. -/
theorem agree_scan {step : Scan α} {post : α → Matcher → Matcher → Prop}
    (h : ∀ m m', S.Scans t m m' → Scan.Follows S.strict post (step m) (step m'))
    (hQ : ∀ a s s' m m', S.Near t s s' → post a m m' →
      Q a { s with scan := m } { s' with scan := m' }) :
    S.Agree False (S.Near t) (scan step) (scan step) .plain Q := by
  refine Agree.of_step ?_ fun s s' hs => ?_
  · intro s a s₁ hr
    unfold scan at hr
    split at hr <;> cases hr
    exact fun _ h => h
  · have hf := h s.scan s'.scan hs.scan
    unfold scan
    cases hm : step s.scan with
    | ok a m =>
      rw [hm] at hf
      obtain ⟨m', hm', hpost⟩ := hf
      rw [hm']
      exact .inr ⟨not_false, a, _, rfl, rfl, hQ a s s' m m' hs hpost⟩
    | error d m =>
      rw [hm] at hf
      intro hstrict
      obtain ⟨m', hm'⟩ := hf hstrict
      rw [hm']
      exact .inr ⟨_, rfl, hs.recorded, hs.module⟩

/-- What two runs have in common behind a rule that has matched or not. -/
def Matched (S : Comparison) (t : Stage) (matched : Bool) (s s' : ParserState) : Prop :=
  if matched then S.Fresh .behind s s' else S.Near t s s'

/-- A match of a rule shows that an extension has been used if the rule belongs to it. -/
theorem uses_eat (r : Rule) :
    S.Agree False (S.Near t) (eat r) (eat r)
      (.marked .plain fun matched => S.Drops r.extension ∧ matched = true) (S.Matched t) := by
  by_cases hd : S.Drops r.extension
  · refine Agree.of_step ?_ fun s s' hs => ?_
    · intro s a s₁ hr
      unfold eat scan at hr
      split at hr <;> cases hr
      exact fun _ h => h
    · obtain ⟨m', hm', hleft⟩ := S.eat_dropped hd hs.scan
      unfold eat scan
      cases hm : Scan.eat r s.scan with
      | error d m => exact fun hstrict => (hd.2 (hd.1.symm.trans (S.core_of_strict hstrict))).elim
      | ok matched m =>
        have hm₁ := hleft matched m hm
        rw [hm']
        cases matched with
        | true => exact .inl ⟨hm₁, .inl (.inl ⟨hd, rfl⟩)⟩
        | false =>
          refine .inr ⟨?_, false, _, rfl, rfl, { hs with scan := hm₁ }⟩
          rintro (⟨-, ⟨⟩⟩ | h)
          exact h
  · refine (agree_scan (fun _ _ h => S.follows_eat hd h) ?_).relike (fun _ _ hl => hl) fun matched => ?_
    · rintro (_ | _) s s' m m' hs hpost
      · exact { hs with scan := hpost }
      · exact ⟨{ hs with scan := hpost.1 }, hpost.2⟩
    · exact or_iff_right fun h => hd h.1

section

variable {r : Rule} {yes yes' no no' : Parser α}

/-- A production that goes one way if a rule matches and another way if it does not. What it reads if
the rule matches shows that the extension of the rule has been used. -/
theorem uses_ifReads {x : Extension} (hx : r.extension = x)
    (hy : S.Agree (shown ∨ S.Drops x) (S.Fresh .behind) yes yes' L Q)
    (hn : S.Agree shown (S.Near t) no no' L Q) :
    S.Agree shown (S.Near t) (eat r >>= fun matched => if matched then yes else no)
      (eat r >>= fun matched => if matched then yes' else no') L Q := by
  subst hx
  refine (uses_eat r).bind ?_
  rintro (_ | _) _ rfl
  · exact hn.shows (by simp [Likeness.marked, Likeness.plain])
  · exact hy.shows (by simp [Likeness.marked, Likeness.plain])

theorem uses_ifEat {x : Extension} (hx : r.extension = x)
    (hy : S.Agree (shown ∨ S.Drops x) (S.Near t) yes yes' L Q)
    (hn : S.Agree shown (S.Near t) no no' L Q) :
    S.Agree shown (S.Near t) (eat r >>= fun matched => if matched then yes else no)
      (eat r >>= fun matched => if matched then yes' else no') L Q :=
  uses_ifReads hx hy.settle hn

/-- A production that goes one way if a rule matches, and then reads what the rule has captured. -/
theorem agree_ifReads (hr : ¬S.Drops r.extension)
    (hy : S.Agree shown (S.Fresh .behind) yes yes' L Q) (hn : S.Agree shown (S.Near t) no no' L Q) :
    S.Agree shown (S.Near t) (eat r >>= fun matched => if matched then yes else no)
      (eat r >>= fun matched => if matched then yes' else no') L Q :=
  uses_ifReads rfl (hy.shows (or_iff_left hr).symm) hn

theorem agree_ifEat (hr : ¬S.Drops r.extension) (hy : S.Agree shown (S.Near t) yes yes' L Q)
    (hn : S.Agree shown (S.Near t) no no' L Q) :
    S.Agree shown (S.Near t) (eat r >>= fun matched => if matched then yes else no)
      (eat r >>= fun matched => if matched then yes' else no') L Q :=
  agree_ifReads hr (hy.pre fun _ _ h => .of_fresh h) hn

/-- Behind a test that has matched, what it has captured can be read. -/
theorem agree_peek (hr : r.extension = .core) :
    S.Agree False (S.Near t) (peek r) (peek r) .plain
      fun matched s s' => if matched then S.Fresh t.seen s s' else S.Near t s s' := by
  refine agree_scan (fun _ _ h => S.follows_peek hr h) ?_
  rintro (_ | _) s s' m m' hs hpost
  · exact { hs with scan := hpost }
  · exact ⟨{ hs with scan := hpost.1 }, hpost.2⟩

theorem agree_ifPeek (hr : r.extension = .core) (hy : S.Agree shown (S.Fresh t.seen) yes yes' L Q)
    (hn : S.Agree shown (S.Near t) no no' L Q) :
    S.Agree shown (S.Near t) (peek r >>= fun matched => if matched then yes else no)
      (peek r >>= fun matched => if matched then yes' else no') L Q := by
  refine (agree_peek hr).then ?_
  rintro (_ | _)
  · exact hn
  · exact hy

/-- Behind a rule that had to match, what it has captured can be read. -/
theorem fresh_expect (hr : ¬S.Drops r.extension) :
    S.Agree False (S.Near t) (expect r) (expect r) .plain fun _ => S.Fresh .behind := by
  refine (uses_eat r).bind ?_
  rintro (_ | _) _ rfl
  · exact agree_unexpected _
  · exact Agree.pure rfl (by simp [Likeness.marked, Likeness.plain, hr]) fun _ _ h => h

theorem agree_expect (hr : ¬S.Drops r.extension) :
    S.Agree False (S.Near t) (expect r) (expect r) .plain fun _ => S.Near t :=
  (fresh_expect hr).post fun _ _ _ h => .of_fresh h

theorem fresh_eat (hr : ¬S.Drops r.extension) :
    S.Agree False (S.Near t) (eat r) (eat r) .plain (S.Matched t) :=
  (uses_eat r).relike (fun _ _ hl => hl) fun _ => (or_iff_right fun h => hr h.1).symm

/-- A match of a rule where the answer alone matters. -/
theorem agree_eat (hr : ¬S.Drops r.extension) :
    S.Agree False (S.Near t) (eat r) (eat r) .plain fun _ => S.Near t := by
  refine (fresh_eat hr).post ?_
  rintro (_ | _) s s' h
  · exact h
  · exact .of_fresh h

/-- A production that goes one way unless a rule matches, and then reads what the rule has captured. -/
theorem agree_unlessReads (hr : ¬S.Drops r.extension) (hn : S.Agree shown (S.Near t) no no' L Q)
    (hy : S.Agree shown (S.Fresh .behind) yes yes' L Q) :
    S.Agree shown (S.Near t) (eat r >>= fun matched => if !matched then no else yes)
      (eat r >>= fun matched => if !matched then no' else yes') L Q := by
  refine .then (fresh_eat hr) ?_
  rintro (_ | _)
  · exact hn
  · exact hy

/-- A production that goes one way unless a rule matches. -/
theorem agree_unlessEat (hr : ¬S.Drops r.extension) (hn : S.Agree shown (S.Near t) no no' L Q)
    (hy : S.Agree shown (S.Near t) yes yes' L Q) :
    S.Agree shown (S.Near t) (eat r >>= fun matched => if !matched then no else yes)
      (eat r >>= fun matched => if !matched then no' else yes') L Q := agree_unlessReads hr hn hy.settle

/-- A production that goes one way unless a rule matches, and shows that its extension has been used
if it does. -/
theorem uses_unlessEat {x : Extension} (hx : r.extension = x)
    (hn : S.Agree shown (S.Near t) no no' L Q)
    (hy : S.Agree (shown ∨ S.Drops x) (S.Near t) yes yes' L Q) :
    S.Agree shown (S.Near t) (eat r >>= fun matched => if !matched then no else yes)
      (eat r >>= fun matched => if !matched then no' else yes') L Q := by
  subst hx
  refine (uses_eat r).bind ?_
  rintro (_ | _) _ rfl
  · exact hn.shows (by simp [Likeness.marked, Likeness.plain])
  · exact hy.settle.shows (by simp [Likeness.marked, Likeness.plain])

theorem agree_unlessPeek (hr : r.extension = .core) (hn : S.Agree shown (S.Near t) no no' L Q)
    (hy : S.Agree shown (S.Near t) yes yes' L Q) :
    S.Agree shown (S.Near t) (peek r >>= fun matched => if !matched then no else yes)
      (peek r >>= fun matched => if !matched then no' else yes') L Q := by
  refine .then (agree_peek hr) ?_
  rintro (_ | _)
  · exact hn
  · exact hy.unsee

theorem pairs_atEnd : S.Pairs .plain atEnd atEnd :=
  fun _ => agree_scan (fun _ _ h => S.follows_atEnd h) fun _ _ _ _ _ hs hpost =>
    { hs with scan := hpost }

theorem pairs_expectEnd : S.Pairs .plain expectEnd expectEnd :=
  fun t => (pairs_atEnd t).then fun _ => .ite (fun _ => agree_unexpected _) fun _ =>
    .pure rfl Iff.rfl fun _ _ h => h

theorem agree_lexeme {scanner : List Char → Scanned α} (h : ∀ text, (scanner text).Within text) :
    S.Agree False (S.Near .behind) (lexeme scanner) (lexeme scanner) .plain
      fun _ => S.Near .behind :=
  agree_scan (fun _ _ hs => S.follows_lexeme h hs) fun _ _ _ _ _ hs hpost =>
    { hs with scan := hpost }

theorem pairs_goto {state : LexicalState} (hs : state.isMarkup = false) :
    S.Pairs .plain (goto state) (goto state) :=
  fun _ => agree_modify (fun _ _ h => h) fun _ _ h => { h with scan := S.scans_goto hs h.scan }

/-- Places that both runs may come back to. -/
def Resumes (S : Comparison) (place : Matcher.Mark) : Prop :=
  ∀ m m', S.Scans .behind m m' → S.Scans .behind (m.restore place) (m'.restore place)

theorem agree_mark : S.Agree False (S.Near .behind) mark mark .plain
    fun place s s' => S.Near .behind s s' ∧ S.Resumes place := by
  refine Agree.of_step ?_ fun s s' hs => ?_
  · rintro s _ _ ⟨⟩
    exact fun _ h => h
  · obtain ⟨hmark, hresumes⟩ := S.scans_mark hs.scan
    exact .inr ⟨not_false, s.scan.mark, s', congrArg (EStateM.Result.ok · s') hmark, rfl, hs, hresumes⟩

theorem agree_restore (place : Matcher.Mark) :
    S.Agree False (fun s s' => S.Near .behind s s' ∧ S.Resumes place) (restore place) (restore place)
      .plain fun _ => S.Near .behind :=
  agree_modify (fun _ _ h => h) fun _ _ hs => { hs.1 with scan := hs.2 _ _ hs.1.scan }

/-! ### Parts that may be there or not -/

/-- An optional part that shows by being there that the extension of its rule has been used. -/
theorem uses_whenEats {x : Extension} {p p' : Parser α} (hx : r.extension = x)
    (hp : ¬S.Drops x → S.Pairs L p p') :
    S.Agree False (S.Near t) (whenEats r p) (whenEats r p')
      (.marked (.option L) fun found => S.Drops x ∧ found.isSome) fun _ => S.Near t := by
  refine uses_ifReads hx ?_ (.give .none (by simp [Likeness.marked, Likeness.option]))
  refine .bindIf (fun hr => ((hp (by simpa using hr)) t).pre fun _ _ h => .of_fresh h) fun a a' ha => ?_
  refine .pure (.some ha) ?_ fun _ _ h => h
  simp [Likeness.marked, Likeness.option]

theorem agree_whenEats {p p' : Parser α} (hr : ¬S.Drops r.extension) (hp : S.Pairs L p p') :
    S.Agree False (S.Near t) (whenEats r p) (whenEats r p') (.option L) fun _ => S.Near t :=
  (uses_whenEats rfl fun _ => hp).relike (fun _ _ hl => hl) fun _ => (or_iff_right fun h => hr h.1).symm

theorem uses_whenPlain {x : Extension} {p p' : Parser α} (hx : r.extension = x)
    (hp : ¬S.Drops x → S.Pairs .plain p p') :
    S.Agree False (S.Near t) (whenEats r p) (whenEats r p')
      (.marked .plain fun found => S.Drops x ∧ found.isSome) fun _ => S.Near t :=
  @Likeness.option_plain S α ▸ uses_whenEats hx hp

theorem agree_whenPlain {p p' : Parser α} (hr : ¬S.Drops r.extension) (hp : S.Pairs .plain p p') :
    S.Agree False (S.Near t) (whenEats r p) (whenEats r p') .plain fun _ => S.Near t :=
  Likeness.option_plain ▸ agree_whenEats hr hp

/-- A part that reads what its rule has captured. -/
theorem agree_whenReads {p p' : Parser α} (hr : ¬S.Drops r.extension)
    (hp : S.Agree False (S.Fresh .behind) p p' L fun _ => S.Near t) :
    S.Agree False (S.Near t) (whenEats r p) (whenEats r p') (.option L) fun _ => S.Near t := by
  refine agree_ifReads hr ?_ (.pure .none (by simp [Likeness.option]) fun _ _ h => h)
  refine hp.bind fun a a' ha => .pure (.some ha) ?_ fun _ _ h => h
  simp [Likeness.option]

theorem agree_whenCaptures (hr : ¬S.Drops r.extension) (f : Captures → α) {there : Matcher → Bool} :
    S.Agree False (S.Near t) (whenEats r (observe (fun m => f m.captures) there))
      (whenEats r (observe (fun m => f m.captures) there)) .plain fun _ => S.Near t :=
  Likeness.option_plain (S := S) ▸
    agree_whenReads hr ((agree_captures f).post fun _ _ _ h => .of_fresh h)

/-- The first of several rules that matches. All of them belong to one extension. -/
theorem uses_eatFirst {x : Extension} {table : List (Rule × α)}
    (htable : ∀ entry ∈ table, entry.1.extension = x) :
    S.Agree False (S.Near t) (eatFirst table) (eatFirst table)
      (.marked .plain fun found => S.Drops x ∧ found.isSome)
      fun found s s' => found.elim (S.Near t s s') fun _ => S.Fresh .behind s s' := by
  induction table with
  | nil => exact .pure rfl (by simp [Likeness.marked, Likeness.plain]) fun _ _ h => h
  | cons entry table ih =>
    have hx : entry.1.extension = x := htable entry List.mem_cons_self
    refine uses_ifReads hx (.pure rfl ?_ fun _ _ h => h) ?_
    · simp [Likeness.marked, Likeness.plain]
    · exact ih fun e he => htable e (List.mem_cons_of_mem entry he)

/-- A production that goes one way if one of several rules matches. -/
theorem uses_ifFirst {x : Extension} {table : List (Rule × α)} {yes yes' no no' : Parser β}
    {R : β → ParserState → ParserState → Prop} (htable : ∀ entry ∈ table, entry.1.extension = x)
    (hy : S.Agree (shown ∨ S.Drops x) (S.Near t) yes yes' M R)
    (hn : S.Agree shown (S.Near t) no no' M R) :
    S.Agree shown (S.Near t) (eatFirst table >>= fun found => if found.isSome then yes else no)
      (eatFirst table >>= fun found => if found.isSome then yes' else no') M R := by
  refine (uses_eatFirst htable).bind ?_
  rintro (_ | a) _ rfl
  · exact hn.shows (by simp [Likeness.marked, Likeness.plain])
  · exact hy.settle.shows (by simp [Likeness.marked, Likeness.plain])

theorem fresh_eatFirst {x : Extension} {table : List (Rule × α)}
    (hx : ¬S.Drops x)
    (htable : ∀ entry ∈ table, entry.1.extension = x) :
    S.Agree False (S.Near t) (eatFirst table) (eatFirst table) .plain
      fun found s s' => found.elim (S.Near t s s') fun _ => S.Fresh .behind s s' :=
  (uses_eatFirst htable).relike (fun _ _ hl => hl) fun _ => (or_iff_right fun h => hx h.1).symm

theorem agree_eatFirst {x : Extension} {table : List (Rule × α)}
    (hx : ¬S.Drops x)
    (htable : ∀ entry ∈ table, entry.1.extension = x) :
    S.Agree False (S.Near t) (eatFirst table) (eatFirst table) .plain fun _ => S.Near t := by
  refine (fresh_eatFirst hx htable).post ?_
  rintro (_ | _) s s' h
  · exact h
  · exact .of_fresh h

/-- The first of several rules that matches, with values that are like themselves. -/
theorem agree_eatLike {x : Extension} {table : List (Rule × α)}
    (htable : ∀ entry ∈ table, entry.1.extension = x) (hx : ¬S.Drops x)
    (hlike : ∀ entry ∈ table, L.like entry.2 entry.2 ∧ ¬L.owes entry.2) :
    S.Agree False (S.Near t) (eatFirst table) (eatFirst table) L.option fun _ => S.Near t := by
  induction table with
  | nil => exact .absent
  | cons entry table ih =>
    rw [List.forall_mem_cons] at hlike htable
    refine agree_ifEat (htable.1 ▸ hx) (.give (.some hlike.1.1) ?_) (ih htable.2 hlike.2)
    simp [Likeness.option, hlike.1.2]

end

/-! ### Nesting and loops -/

section

theorem agree_nested {p p' : Parser α} (hp : S.Agree False (S.Near t) p p' L fun _ => S.Near t) :
    S.Agree False (S.Near t) (nested p) (nested p') L fun _ => S.Near t := by
  have hleave (a a' : α) (ha : L.like a a') : S.Agree (L.owes a) (S.Near t)
      (do
        modify fun s : ParserState => { s with depth := s.depth - 1 }
        return a)
      (do
        modify fun s : ParserState => { s with depth := s.depth - 1 }
        return a') L fun _ => S.Near t := by
    refine Agree.then (Q := fun _ => S.Near t) (agree_modify (fun _ _ h => h) fun _ _ h => ?_) fun _ =>
      .pure ha Iff.rfl fun _ _ h => h
    exact { h with depth := congrArg (· - 1) h.depth }
  have hrun := hp.andThen hleave
  refine Agree.then (Q := fun _ => S.Near t) (agree_modify (fun _ _ h => h) fun _ _ h => ?_) fun _ => ?_
  · exact { h with depth := congrArg (· + 1) h.depth }
  refine ⟨fun s a s₁ hlost hr => ?_, fun _ s s' hs => ?_⟩
  · change (if s.depth > s.maxDepth then _ else _ : Parser α) s = _ at hr
    split at hr
    · cases hr
    · exact hrun.lost s a s₁ hlost hr
  · change Ends (S.Answers L _ ((if s'.depth > s'.maxDepth then _ else _ : Parser α) s'))
      (S.Stops ((if s'.depth > s'.maxDepth then _ else _ : Parser α) s'))
      ((if s.depth > s.maxDepth then _ else _ : Parser α) s)
    by_cases hdepth : s.depth > s.maxDepth
    · rw [if_pos hdepth]
      intro hstrict
      by_cases hraised : S.raised
      · exact .inl ⟨hraised, s.scan.nextOffset, by rw [← hs.limit]; rfl⟩
      · -- Both runs have one limit, and stop at one place.
        have hmax : s'.maxDepth = s.maxDepth := (hs.limit_eq hraised).trans hs.limit.symm
        have hdepth' : s'.depth > s'.maxDepth := by rw [hs.depth, hmax]; exact hdepth
        rw [if_pos hdepth', hmax, (S.abreast_of_strict hstrict hs.scan).nextOffset]
        exact .inr ⟨s', rfl, hs.recorded, hs.module⟩
    · have hdepth' : ¬s'.depth > s'.maxDepth := by
        rw [hs.depth]
        have := hs.limit
        have := hs.limit_le
        omega
      rw [if_neg hdepth, if_neg hdepth']
      exact hrun.follows not_false s s' hs

theorem pairs_nested {p p' : Parser α} (hp : S.Pairs L p p') : S.Pairs L (nested p) (nested p') :=
  fun t => agree_nested (hp t)

/-- How many rounds the loops of two runs may take. -/
def rounds (S : Comparison) : S.Likeness Nat where
  like n n' := n ≤ n' ∧ (S.strict → n' = n)
  owes _ := False
  refl _ n := ⟨Nat.le_refl n, fun _ => rfl⟩

theorem rounds_like {s s' : ParserState} (h : S.Near t s s') : S.rounds.like s.steps s'.steps :=
  ⟨Nat.succ_le_succ (S.size_le h.scan), fun hs =>
    congrArg (· + 1) (S.abreast_of_strict hs h.scan).size⟩

/-- If the first run has a round left, the second one has too. -/
theorem rounds_succ {n n' : Nat} (h : S.rounds.like (n + 1) n') :
    ∃ m, n' = m + 1 ∧ S.rounds.like n m := by
  obtain ⟨m, rfl⟩ := Nat.exists_eq_add_of_lt (Nat.lt_of_succ_le h.1)
  refine ⟨n + m, rfl, Nat.le_add_right n m, fun hs => Nat.succ.inj (h.2 hs)⟩

/-- A loop whose first run has no rounds left. -/
theorem agree_zero (p' : Nat → Parser α) {n' : Nat} (hn : S.rounds.like 0 n')
    (hp : p' 0 = exhausted) : S.Agree shown (S.Near t) exhausted (p' n') L Q := by
  refine ⟨fun _ _ _ _ h => (nomatch h), fun _ s s' hs hstrict => ?_⟩
  rw [hn.2 hstrict, hp]
  exact .inr ⟨s', rfl, hs.recorded, hs.module⟩

theorem agree_manyWithin {p p' : Parser (Option α)}
    (hp : S.Agree False (S.Near t) p p' (.option L) fun _ => S.Near t) {n n' : Nat}
    (hn : S.rounds.like n n') :
    S.Agree False (S.Near t) (manyWithin p n) (manyWithin p' n') (.list L) fun _ => S.Near t := by
  induction n generalizing n' with
  | zero => exact agree_zero (manyWithin p') hn rfl
  | succ n ih =>
    obtain ⟨m, rfl, hm⟩ := rounds_succ hn
    refine hp.bind ?_
    rintro _ _ (ha | _)
    rotate_left
    · exact .pure List.Forall₂.nil (by simp [Likeness.list, Likeness.option]) fun _ _ h => h
    · refine (ih hm).bind fun as as' has => .pure (List.Forall₂.cons ha has) ?_ fun _ _ h => h
      simp [Likeness.list, Likeness.option]

theorem agree_many {p p' : Parser (Option α)}
    (hp : S.Agree False (S.Near t) p p' (.option L) fun _ => S.Near t) :
    S.Agree False (S.Near t) (many p) (many p') (.list L) fun _ => S.Near t :=
  Agree.look (L := S.rounds) (fun _ _ h => rounds_like h) fun _ _ hn => agree_manyWithin hp hn

/-- What each round keeps the loop keeps. -/
theorem agree_iterateOn {step step' : α → Parser (α ⊕ β)} {P : ParserState → ParserState → Prop}
    (hP : ∀ s s', P s s' → S.Near t s s')
    (hp : ∀ a a', L.like a a' → S.Agree (L.owes a) P (step a) (step' a') (.sum L M) fun _ => P)
    {init init' : α} (hi : L.like init init') :
    S.Agree (L.owes init) P (iterate step init) (iterate step' init') M fun _ => P := by
  have hn : ∀ n n' a a', S.rounds.like n n' → L.like a a' → S.Agree (L.owes a) P
      (iterateWithin step n a) (iterateWithin step' n' a') M fun _ => P := by
    intro n
    induction n with
    | zero => exact fun n' a a' hn _ => (agree_zero (fun n => iterateWithin step' n a') hn rfl).pre hP
    | succ n ih =>
      intro n' a a' hn ha
      obtain ⟨m, rfl, hm⟩ := rounds_succ hn
      refine (hp a a' ha).andThen ?_
      rintro (b | b) (b' | b') hb
      · exact ih m b b' hm hb
      · exact hb.elim
      · exact hb.elim
      · exact .pure hb Iff.rfl fun _ _ h => h
  exact Agree.look (L := S.rounds) (fun s s' h => rounds_like (hP s s' h)) fun n n' hr =>
    hn n n' _ _ hr hi

theorem agree_iterate {step step' : α → Parser (α ⊕ β)}
    (hp : ∀ a a', L.like a a' →
      S.Agree (L.owes a) (S.Near t) (step a) (step' a') (.sum L M) fun _ => S.Near t)
    {init init' : α} (hi : L.like init init') :
    S.Agree (L.owes init) (S.Near t) (iterate step init) (iterate step' init') M
      fun _ => S.Near t := agree_iterateOn (fun _ _ h => h) hp hi

theorem agree_manyPlain {p p' : Parser (Option α)}
    (hp : S.Agree False (S.Near t) p p' .plain fun _ => S.Near t) :
    S.Agree False (S.Near t) (many p) (many p') .plain fun _ => S.Near t := by
  have hmany := agree_many (L := .plain) (Likeness.option_plain.symm ▸ hp)
  rwa [Likeness.list_plain] at hmany

/-- A loop over a list. -/
theorem agree_forIn {τ : Type} [Parsing τ] {P : τ → τ → Prop} {p p' : α → EStateM Stop τ PUnit}
    (hp : ∀ a, S.Agree False P (p a) (p' a) .plain fun _ => P) (as : List α) :
    S.Agree False P
      (forIn as PUnit.unit fun a _ => do
        p a
        pure (ForInStep.yield PUnit.unit))
      (forIn as PUnit.unit fun a _ => do
        p' a
        pure (ForInStep.yield PUnit.unit)) .plain fun _ => P := by
  induction as with
  | nil => exact .plain _
  | cons a as ih =>
    rw [List.forIn_cons, List.forIn_cons, bind_assoc, bind_assoc]
    exact .then (hp a) fun _ => ih

/-- Parts with separators. -/
theorem agree_separatedBy {r : Rule} {p p' : Parser α} (hr : ¬S.Drops r.extension)
    (hp : S.Pairs L p p') :
    S.Agree False (S.Near t) (separatedBy r p) (separatedBy r p') (.list L) fun _ => S.Near t := by
  refine (hp t).bind fun a a' ha => (agree_many (agree_whenEats hr hp)).bind ?_
  refine fun as as' has => .pure (List.Forall₂.cons ha has) ?_ fun _ _ h => h
  simp [Likeness.list]

theorem agree_separatedPlain {r : Rule} {p p' : Parser α} (hr : ¬S.Drops r.extension)
    (hp : S.Pairs .plain p p') :
    S.Agree False (S.Near t) (separatedBy r p) (separatedBy r p') .plain fun _ => S.Near t :=
  Likeness.list_plain ▸ agree_separatedBy hr hp

end

end

end Comparison

end XQuerySyntax
