import Mathlib.Data.List.Perm.Basic
import XQuerySyntax.Proofs.Comparison.Afresh
import XQuerySyntax.Proofs.Comparison.Markup
import XQuerySyntax.Proofs.Names.Reports
import XQuerySyntax.Proofs.RoundTrip.Reads
import XQuerySyntax.Proofs.Static.Prolog

/-! What a parser records on its way from one place to another. Offsets do not count, nor the order in
which namespaces have been bound or diagnostics recorded, so what is recorded for a start tag can be said
attribute by attribute. -/

namespace XQuerySyntax

open XQuerySyntax.Parser Grammar Terminal

/-! ### What is recorded on the way -/

/-- All offsets are one where they are set aside. -/
def nowhere : Nat → Nat := fun _ => 0

/-- What has been recorded, offsets aside. -/
def ParserState.told (s : ParserState) : List Diagnostic := s.recorded.map (Diagnostic.moved nowhere)

/-- The parser stands at a place, whatever the order in which its namespaces have been bound. -/
def ParserState.Stands (s : ParserState) (f : Frame) (l : Place) : Prop :=
  f.context.Alike s.context ∧ s.At { f with context := s.context } l

namespace Parser

variable {α β σ : Type} {f f₁ f₂ : Frame} {l l₁ l₂ : Place} {p : Parser α} {P P' : α → Prop} {Q : β → Prop}
  {ds ds' : List Diagnostic}

/-- From the place `l` the parser answers what `P` allows, records `ds`, and gets to the place `l₁`. -/
def Reports (f : Frame) (l : Place) (p : Parser α) (P : α → Prop) (ds : List Diagnostic) (f₁ : Frame)
    (l₁ : Place) : Prop :=
  ∀ s : ParserState, s.Stands f l →
    ∃ a s₁, p s = .ok a s₁ ∧ P a ∧ s₁.Stands f₁ l₁ ∧ s₁.told.Perm (s.told ++ ds)

/-- A parser that records nothing. -/
def RecordsNothing (p : Parser α) : Prop := ∀ s a s₁, p s = .ok a s₁ → s₁.recorded = s.recorded

theorem RecordsNothing.reports (hp : RecordsNothing p) (h : ∀ f, Reads f l p P l₁) : Reports f l p P [] f l₁ := by
  intro s hs
  obtain ⟨a, s₁, hr, ha, hs₁⟩ := h _ s hs.2
  have hcontext : s₁.context = s.context := congrArg Frame.context hs₁.frame
  refine ⟨a, s₁, hr, ha, ⟨hcontext ▸ hs.1, hcontext ▸ hs₁⟩, ?_⟩
  rw [ParserState.told, hp s a s₁ hr, List.append_nil]
  exact .refl _

theorem recordsNothing_scan (step : Scan α) : RecordsNothing (scan step) := by
  intro s a s₁ hr
  unfold scan at hr
  split at hr <;> cases hr
  rfl

theorem recordsNothing_observe (g : Matcher → α) (there : Matcher → Bool) : RecordsNothing (observe g there) := by
  rintro s a s₁ ⟨⟩
  rfl

theorem reports_pure {a : α} (h : P a) : Reports f l (pure a) P [] f l :=
  fun s hs => ⟨a, s, rfl, h, hs, .of_eq (List.append_nil _).symm⟩

theorem reports_bind {next : α → Parser β} (h : Reports f l p P ds f₁ l₁)
    (hn : ∀ a, P a → Reports f₁ l₁ (next a) Q ds' f₂ l₂) : Reports f l (p >>= next) Q (ds ++ ds') f₂ l₂ := by
  intro s hs
  obtain ⟨a, s₁, hp, ha, hs₁, hds⟩ := h s hs
  obtain ⟨b, s₂, hnext, hb, hs₂, hds'⟩ := hn a ha s₁ hs₁
  refine ⟨b, s₂, (bind_of_ok hp).trans hnext, hb, hs₂, hds'.trans ?_⟩
  rw [← List.append_assoc]
  exact hds.append_right _

/-- In front of steps that record nothing. -/
theorem reports_before {next : α → Parser β} (h : Reports f l p P ds f₁ l₁)
    (hn : ∀ a, P a → Reports f₁ l₁ (next a) Q [] f₂ l₂) : Reports f l (p >>= next) Q ds f₂ l₂ := by
  have hbind := reports_bind h hn
  rwa [List.append_nil] at hbind

theorem reports_after {next : α → Parser β} (h : Reports f l p P [] f₁ l₁)
    (hn : ∀ a, P a → Reports f₁ l₁ (next a) Q ds f₂ l₂) : Reports f l (p >>= next) Q ds f₂ l₂ :=
  reports_bind h hn

/-- Behind a step that records nothing. -/
theorem reports_behind {next : α → Parser β} (hp : RecordsNothing p) (h : ∀ f, Reads f l p P l₁)
    (hn : ∀ a, P a → Reports f l₁ (next a) Q ds f₂ l₂) : Reports f l (p >>= next) Q ds f₂ l₂ :=
  reports_after (hp.reports h) hn

theorem reports_weaken (h : Reports f l p P ds f₁ l₁) (hi : ∀ a, P a → P' a) :
    Reports f l p P' ds f₁ l₁ := by
  intro s hs
  obtain ⟨a, s₁, hp, ha, hs₁, hds⟩ := h s hs
  exact ⟨a, s₁, hp, hi a ha, hs₁, hds⟩

/-- What was captured does not matter any more. -/
theorem reports_forget {rest : List Char} {stack : StateStack} {caught : Option Captures}
    (h : Reports f (.at rest stack) p P ds f₁ l₁) : Reports f ⟨rest, stack, caught⟩ p P ds f₁ l₁ :=
  fun s hs => h s ⟨hs.1, hs.2.frame, hs.2.rest, hs.2.stack, fun _ h => nomatch h⟩

/-- What is looked up must not depend on the order of the namespaces. -/
theorem reports_consult (g : StaticContext → α) (hg : ∀ c c', StaticContext.Alike c c' → g c' = g c) :
    Reports f l (consult g) (fun a => a = g f.context) [] f l :=
  fun s hs => ⟨g s.context, s, rfl, hg _ _ hs.1, hs, .of_eq (List.append_nil _).symm⟩

theorem reports_record (code : ErrorCode) (offset : Nat) (message : String) :
    Reports f l (record code offset message) (fun _ => True) [.error code 0 message] f l := by
  intro s hs
  refine ⟨(), _, rfl, trivial, ⟨hs.1, hs.2.frame, hs.2.rest, hs.2.stack, hs.2.caught⟩, ?_⟩
  exact .of_eq List.map_append

theorem reports_recordIf {c : Prop} [Decidable c] {code : ErrorCode} {offset : Nat} {message : String}
    {rest : Parser α} (h : Reports f l rest P ds f₁ l₁) :
    Reports f l (if c then record code offset message >>= fun _ => rest else rest) P
      ((if c then [.error code 0 message] else []) ++ ds) f₁ l₁ := by
  split
  · exact reports_bind (reports_record _ _ _) fun _ _ => h
  · exact h

theorem reports_bindNamespace (qualifier uri : String) : Reports f l (amend (·.bind qualifier uri))
    (fun _ => True) [] { f with context := f.context.bind qualifier uri } l := by
  intro s hs
  refine ⟨(), _, rfl, trivial, ⟨hs.1.bind qualifier uri, ?_, hs.2.rest, hs.2.stack, hs.2.caught⟩,
    .of_eq (List.append_nil _).symm⟩
  exact congrArg (fun g : Frame => { g with context := s.context.bind qualifier uri }) hs.2.frame

theorem reports_iterate {step : σ → Parser (σ ⊕ α)} {a : σ}
    (h : Reports f l (iterateWithin step (f.size + 1) a) P ds f₁ l₁) :
    Reports f l (iterate step a) P ds f₁ l₁ := by
  intro s hs
  have hsteps : s.steps = f.size + 1 := congrArg (fun g : Frame => g.size + 1) hs.2.frame
  have hs' := h s hs
  rw [← hsteps] at hs'
  exact hs'

theorem reports_iterateWithin_done {step : σ → Parser (σ ⊕ α)} {a : σ} {n : Nat}
    (h : Reports f l (step a) (fun o => ∃ b, o = .inr b ∧ P b) ds f₁ l₁) :
    Reports f l (iterateWithin step (n + 1) a) P ds f₁ l₁ := by
  refine reports_before h fun o ho => ?_
  obtain ⟨b, rfl, hb⟩ := ho
  exact reports_pure hb

theorem reports_iterateWithin_next {step : σ → Parser (σ ⊕ β)} {P : σ → Prop} {a : σ} {n : Nat}
    (h : Reports f l (step a) (fun o => ∃ b, o = .inl b ∧ P b) ds f₁ l₁)
    (hn : ∀ b, P b → Reports f₁ l₁ (iterateWithin step n b) Q ds' f₂ l₂) :
    Reports f l (iterateWithin step (n + 1) a) Q (ds ++ ds') f₂ l₂ := by
  refine reports_bind h fun o ho => ?_
  obtain ⟨b, rfl, hb⟩ := ho
  exact hn b hb

/-! ### Rules -/

variable {text rest : List Char} {stack : StateStack} {r : Rule} {found : Captures} {yes no : Parser α}

theorem reports_ifEat (h : Takes stack.active text r rest found)
    (hyes : Reports f ⟨rest, stack.apply r.next, some found⟩ yes P ds f₁ l₁) :
    Reports f (.at text stack) (eat r >>= fun b => if b = true then yes else no) P ds f₁ l₁ := by
  refine reports_behind (recordsNothing_scan _) (fun _ => reads_eat h) fun b hb => ?_
  rw [if_pos hb]
  exact hyes

theorem reports_ifEat_declined (h : Declines stack.active text r)
    (hno : Reports f (.at text stack) no P ds f₁ l₁) :
    Reports f (.at text stack) (eat r >>= fun b => if b = true then yes else no) P ds f₁ l₁ := by
  refine reports_behind (recordsNothing_scan _) (fun _ => reads_eat_declined h) fun b hb => ?_
  rw [hb]
  exact hno

end Parser

/-! ### Namespaces that a start tag binds -/

namespace StaticContext

variable {c c' : StaticContext} {pairs pairs' : List (String × String)}

theorem Alike.bindAll (h : c.Alike c') (pairs : List (String × String)) :
    (c.bindAll pairs).Alike (c'.bindAll pairs) := by
  induction pairs generalizing c c' with
  | nil => exact h
  | cons p pairs ih => exact ih (h.bind p.1 p.2)

/-- Different qualifiers may be bound in any order. -/
theorem bindAll_perm (hp : pairs.Perm pairs') (hkeys : (pairs.map Prod.fst).Nodup) (c : StaticContext) :
    (c.bindAll pairs).Alike (c.bindAll pairs') := by
  induction hp generalizing c with
  | nil => exact .refl c
  | cons p _ ih => exact ih (List.nodup_cons.1 hkeys).2 _
  | swap p p' pairs =>
    have hne : p'.1 ≠ p.1 := by
      rintro heq
      exact (List.nodup_cons.1 hkeys).1 (heq ▸ List.mem_cons_self)
    exact (bind_comm c hne p'.2 p.2).bindAll pairs
  | trans hp _ ih ih' => exact (ih hkeys c).trans (ih' ((hp.map _).nodup_iff.1 hkeys) c)

/-- A qualifier that is bound once gets what it is bound to. -/
theorem resolve?_bindAll_of_mem {p : String × String} (hp : p ∈ pairs) (hkeys : (pairs.map Prod.fst).Nodup)
    (c : StaticContext) : (c.bindAll pairs).resolve? p.1 = if p.2 = "" then none else some p.2 := by
  obtain ⟨before, behind, rfl⟩ := List.append_of_mem hp
  rw [List.map_append, List.map_cons, List.nodup_append] at hkeys
  -- Nothing that is bound behind it hides it.
  have hother : behind.reverse.findSome? (namespaceFor p.1) = none := by
    refine List.findSome?_eq_none_iff.2 fun p' hp' => if_neg fun heq => ?_
    exact (List.nodup_cons.1 hkeys.2.1).1 (heq ▸ List.mem_map_of_mem (List.mem_reverse.1 hp'))
  rw [resolve?_bindAll, lastSaid, List.reverse_append, List.reverse_cons, List.append_assoc,
    List.findSome?_append, hother, List.singleton_append, List.findSome?_cons, namespaceFor, if_pos rfl]
  rfl

end StaticContext

/-- The qualifier under which a namespace is bound, the empty one for the default namespace. -/
def NamespaceBinding.key (b : NamespaceBinding) : String := b.qualifier.getD ""

/-- What is recorded where a qualifier or a namespace is bound that is reserved. -/
def reservedReports (q uri : String) : List Diagnostic :=
  if q == "xml" || q == "xmlns" then
    [.error .reservedNamespace 0 ("the prefix '" ++ q ++ "' cannot be redeclared")]
  else if uri == Namespaces.xml || uri == Namespaces.xmlns then
    [.error .reservedNamespace 0 ("the namespace '" ++ uri ++ "' cannot be bound to '" ++ q ++ "'")]
  else []

/-- What is recorded where a reserved namespace becomes the default one. -/
def reservedDefaultReports (uri : String) : List Diagnostic :=
  if uri == Namespaces.xml || uri == Namespaces.xmlns then
    [.error .reservedNamespace 0 ("'" ++ uri ++ "' cannot be a default namespace")]
  else []

/-- What is recorded for a namespace that a start tag binds. -/
def NamespaceBinding.reports : NamespaceBinding → List Diagnostic
  | ⟨some q, uri⟩ =>
    (if uri = "" then
      [.error .emptyNamespaceUri 0 ("namespace prefix '" ++ q ++ "' cannot be bound to an empty URI")]
    else []) ++ reservedReports q uri
  | ⟨none, uri⟩ => reservedDefaultReports uri

/-- What is recorded for the expressions in the value of an attribute that binds a namespace. -/
def notLiteralReports (value : List (AttributeValuePart Expr)) : List Diagnostic :=
  List.replicate (AttributeValuePart.enclosedCount value)
    (.error .namespaceAttributeNotLiteral 0 "a namespace declaration attribute must have a literal value")

/-- The context with namespaces bound one after the other. -/
def StaticContext.binding (c : StaticContext) (bs : List NamespaceBinding) : StaticContext :=
  c.bindAll (bs.map fun b => (b.key, b.uri))

/-- The frame with namespaces bound in its context. -/
def Frame.binding (f : Frame) (bs : List NamespaceBinding) : Frame :=
  { f with context := f.context.binding bs }

namespace Parser

variable {f : Frame} {l : Place}

theorem reports_recordAll (ns : List Nat) (code : ErrorCode) (offset : Nat) (message : String) :
    Reports f l (forIn ns PUnit.unit fun _ _ => do
      record code offset message
      pure (ForInStep.yield PUnit.unit)) (fun _ => True) (List.replicate ns.length (.error code 0 message)) f l := by
  induction ns with
  | nil => exact reports_pure trivial
  | cons n ns ih =>
    rw [List.forIn_cons, bind_assoc]
    exact reports_bind (reports_record code offset message) fun _ _ => ih

theorem reports_checkBinding (q uri : String) (offset : Nat) :
    Reports f l (checkBinding q uri offset) (fun _ => True) (reservedReports q uri) f l := by
  unfold checkBinding reservedReports
  split
  · exact reports_record _ _ _
  · split
    · exact reports_record _ _ _
    · exact reports_pure trivial

theorem reports_checkDefaultNamespace (uri : String) (offset : Nat) :
    Reports f l (checkDefaultNamespace uri offset) (fun _ => True) (reservedDefaultReports uri) f l := by
  unfold checkDefaultNamespace reservedDefaultReports
  split
  · exact reports_record _ _ _
  · exact reports_pure trivial

/-- A namespace that no other attribute of the tag binds is bound. -/
theorem reports_namespaceAttribute (qualifier : Option String) (value : List (AttributeValuePart Expr))
    (offset : Nat) {earlier : List NamespaceBinding} (hnew : ∀ b ∈ earlier, b.qualifier ≠ qualifier) :
    Reports f l (namespaceAttribute qualifier value offset earlier)
      (fun b => b = ⟨qualifier, AttributeValuePart.literalText value⟩)
      (notLiteralReports value ++ NamespaceBinding.reports ⟨qualifier, AttributeValuePart.literalText value⟩)
      (f.binding [⟨qualifier, AttributeValuePart.literalText value⟩]) l := by
  have hdouble : (earlier.any fun b => b.qualifier == qualifier) = false := by
    rw [List.any_eq_false]
    exact fun b hb heq => hnew b hb (beq_iff_eq.1 heq)
  have hliteral := reports_recordAll (f := f) (l := l) (List.range (AttributeValuePart.enclosedCount value))
    .namespaceAttributeNotLiteral offset "a namespace declaration attribute must have a literal value"
  rw [List.length_range] at hliteral
  refine reports_bind hliteral fun _ _ => ?_
  rw [hdouble, if_neg Bool.false_ne_true]
  have hbind (uri : String) : Reports f l (do
      amend (·.bind (qualifier.getD "") uri)
      return NamespaceBinding.mk qualifier uri) (fun b => b = ⟨qualifier, uri⟩) [] (f.binding [⟨qualifier, uri⟩]) l :=
    reports_bind (reports_bindNamespace _ _) fun _ _ => reports_pure rfl
  cases qualifier with
  | some q =>
    exact reports_recordIf (reports_before (reports_checkBinding q _ offset) fun _ _ => hbind _)
  | none => exact reports_before (reports_checkDefaultNamespace _ offset) fun _ _ => hbind _

end Parser

/-! ### Names in a start tag -/

/-- The name with the namespace of its qualifier, or the default one. -/
def LexicalName.resolvedIn (n : LexicalName) (c : StaticContext) (default : Option String) : QName :=
  ⟨n.qualifier, n.localPart, n.qualifier.elim default c.resolve?⟩

/-- The attribute with its name resolved. Without a qualifier it is in no namespace. -/
def RawAttribute.resolvedIn (a : RawAttribute) (c : StaticContext) : DirAttribute Expr :=
  ⟨a.name.resolvedIn c none, a.value, a.offset⟩

/-- What is recorded where the name stands. -/
def QName.reports (n : QName) : List Diagnostic :=
  n.unbound.map fun q => .error .unknownPrefix 0 (unboundMessage q)

section

variable {c c' : StaticContext}

theorem LexicalName.resolvedIn_eq (h : c.Alike c') (n : LexicalName) (default : Option String) :
    n.resolvedIn c' default = n.resolvedIn c default := by
  have hresolve : c'.resolve? = c.resolve? := funext h.resolve?
  rw [resolvedIn, resolvedIn, hresolve]

theorem RawAttribute.resolvedIn_eq (h : c.Alike c') (a : RawAttribute) : a.resolvedIn c' = a.resolvedIn c := by
  rw [resolvedIn, resolvedIn, LexicalName.resolvedIn_eq h]

end

namespace Parser

variable {f : Frame} {l : Place}

theorem reports_resolveName (n : LexicalName) (default : Option String) (offset : Nat) :
    Reports f l (resolveName n default offset) (fun name => name = n.resolvedIn f.context default)
      (n.resolvedIn f.context default).reports f l := by
  obtain ⟨qualifier, localPart⟩ := n
  cases qualifier with
  | none =>
    have hnone : (LexicalName.resolvedIn ⟨none, localPart⟩ f.context default).reports = [] := by
      cases default <;> rfl
    rw [hnone]
    exact reports_pure rfl
  | some q =>
    have hlook := reports_consult (f := f) (l := l) (·.resolve? q) fun _ _ h => h.resolve? q
    have hqualifier : Reports f l (resolveQualifier q offset) (fun uri => uri = f.context.resolve? q)
        (LexicalName.resolvedIn ⟨some q, localPart⟩ f.context default).reports f l := by
      have hreports : (LexicalName.resolvedIn ⟨some q, localPart⟩ f.context default).reports =
          (if (f.context.resolve? q).isNone then
            [.error .unknownPrefix 0 ("namespace prefix '" ++ q ++ "' is not declared")] else []) ++ [] := by
        change List.map _ (if (f.context.resolve? q).isNone then [q] else []) = _
        split <;> rfl
      rw [hreports]
      refine reports_after hlook fun uri huri => ?_
      rw [huri]
      exact reports_recordIf (reports_pure rfl)
    refine reports_before hqualifier fun uri huri => ?_
    rw [huri]
    exact reports_pure rfl

theorem reports_elementName (n : LexicalName) (offset : Nat) :
    Reports f l (elementName n offset) (fun name => name = n.resolvedIn f.context f.context.elementNamespace?)
      (n.resolvedIn f.context f.context.elementNamespace?).reports f l := by
  refine reports_after (reports_consult _ fun _ _ h => h.elementNamespace?) fun default hdefault => ?_
  rw [hdefault]
  exact reports_resolveName n _ offset

/-- The names of attributes are resolved one by one if they all differ. -/
theorem reports_resolveAttributes {raws : List RawAttribute} {seen : List ExpandedName}
    (hnodup : (raws.map fun a => (a.resolvedIn f.context).name.expanded).Nodup)
    (hnew : ∀ a ∈ raws, (a.resolvedIn f.context).name.expanded ∉ seen) :
    Reports f l (resolveAttributes seen raws) (fun as => as = raws.map (·.resolvedIn f.context))
      (raws.flatMap fun a => (a.resolvedIn f.context).name.reports) f l := by
  induction raws generalizing seen with
  | nil => exact reports_pure rfl
  | cons a raws ih =>
    obtain ⟨hother, hnodup⟩ := List.nodup_cons.1 hnodup
    have hunseen : seen.contains (a.resolvedIn f.context).name.expanded = false := by
      simpa using hnew a List.mem_cons_self
    refine reports_bind (reports_resolveName a.name none a.offset) fun name hname => ?_
    obtain rfl : name = (a.resolvedIn f.context).name := hname
    rw [hunseen, if_neg Bool.false_ne_true]
    have hnew' : ∀ b ∈ raws, (b.resolvedIn f.context).name.expanded ∉
        (a.resolvedIn f.context).name.expanded :: seen := by
      intro b hb hmem
      rcases List.mem_cons.1 hmem with heq | hmem
      · exact hother (List.mem_map.2 ⟨b, hb, heq⟩)
      · exact hnew b (List.mem_cons_of_mem a hb) hmem
    refine reports_before (ih hnodup hnew') fun as has => ?_
    rw [has]
    exact reports_pure rfl

end Parser

end XQuerySyntax

/-! ### Runs at one place

Two runs that stand at one place go on alike, whatever they have recorded before and in whatever order
their namespaces have been bound. -/

namespace XQuerySyntax

open XQuerySyntax.Parser Grammar Comparison

variable {f : Frame} {l : Place} {rest : List Char} {stack : StateStack} {s s' s₁ s₁' : ParserState}
  {earlier earlier' ds : List Diagnostic} {t : Stage}

theorem near_of_stands (hs : s.Stands f l) (hs' : s'.Stands f l) :
    (reordered f.maxDepth s.recorded s'.recorded).Near .anywhere s s' := by
  have hframe : s'.frame = { s.frame with context := s'.context } := by rw [hs.2.frame, hs'.2.frame]
  have hlimit : s.maxDepth = f.maxDepth := congrArg Frame.maxDepth hs.2.frame
  have hlimit' : s'.maxDepth = f.maxDepth := congrArg Frame.maxDepth hs'.2.frame
  exact {
    scan := ⟨congrArg Frame.size hframe, hs'.2.rest.trans hs.2.rest.symm, hs'.2.stack.trans hs.2.stack.symm,
      congrArg Frame.extensions hframe, fun h => absurd rfl h⟩
    context := ⟨hs.1.symm.trans hs'.1, False.elim⟩
    recorded := by
      refine ⟨?_, False.elim⟩
      have hid : Diagnostic.moved id = id := rfl
      change (s'.recorded ++ s.recorded.map (Diagnostic.moved id)).Perm
        (s.recorded ++ s'.recorded.map (Diagnostic.moved id))
      rw [hid, List.map_id_fun, id, id]
      exact List.perm_append_comm
    module := congrArg Frame.module hframe
    depth := congrArg Frame.depth hframe
    limit := hlimit
    limit_le := Nat.le_of_eq hlimit'.symm
    limit_eq := fun _ => hlimit'
    libraryNamespace := False.elim
    declaredPrefixes := False.elim }

theorem stands_of_near {limit : Nat} (h : (reordered limit earlier earlier').Near t s s')
    (hs : s.Stands f (.at rest stack)) : s'.Stands f (.at rest stack) := by
  refine ⟨hs.1.trans h.context.1, ?_, h.scan.rest.trans hs.2.rest, h.scan.stack.trans hs.2.stack, fun _ h => nomatch h⟩
  have hframe : s'.frame = { s.frame with context := s'.context } := by
    unfold ParserState.frame
    rw [h.module, h.depth, h.limit_eq id, h.limit, h.scan.size, h.scan.extensions]
  rw [hframe, hs.2.frame]

/-- What two runs record in their course is the same, offsets aside. -/
theorem told_of_records (h : (reordered f.maxDepth s.recorded s'.recorded).Records s₁.recorded s₁'.recorded) :
    (s'.told ++ s₁.told).Perm (s.told ++ s₁'.told) := by
  have hmoved := h.1.map (Diagnostic.moved nowhere)
  rw [List.map_append, List.map_append, List.map_map, List.map_map] at hmoved
  exact hmoved

theorem eq_of_likeValue {value value' : List (AttributeValuePart Expr)}
    (h : (reordered f.maxDepth earlier earlier').valuePart.list.like value value') : value' = value := by
  have hmoved := map_of_like h
  have hexpr : Expr.moved id = id := funext Expr.moved_id
  have hpart : AttributeValuePart.map (id : Expr → Expr) = id := funext AttributeValuePart.map_id
  change value.map (AttributeValuePart.map (Expr.moved id)) = value'.map (AttributeValuePart.map (Expr.moved id)) at hmoved
  rw [hexpr, hpart, List.map_id_fun] at hmoved
  exact hmoved.symm

theorem eq_of_likeContent {limit : Nat} {earlier earlier' : List Diagnostic}
    {content content' : Option (List (DirContent Expr))}
    (h : (reordered limit earlier earlier').dirContent.list.option.like content content') : content' = content := by
  cases h with
  | none => rfl
  | some hlist =>
    have hmoved := map_of_like hlist
    have hexpr : Expr.moved id = id := funext Expr.moved_id
    have hpart : DirContent.map (id : Expr → Expr) = id := funext DirContent.map_id
    change List.map (DirContent.map (Expr.moved id)) _ = List.map (DirContent.map (Expr.moved id)) _ at hmoved
    rw [hexpr, hpart, List.map_id_fun] at hmoved
    exact congrArg some hmoved.symm

end XQuerySyntax
