import Mathlib.Data.List.Perm.Subperm
import XQuerySyntax.Grammar.Module
import XQuerySyntax.Proofs.Comparison.Comparison
import XQuerySyntax.Proofs.Contract
import XQuerySyntax.Proofs.Names.Unbound

/-! Accounts of unbound names. A parser has in hand the names and the expressions that it has read and
not yet put into a tree. What is recorded for unbound names agrees with what is in hand, whatever was in
hand before: each unbound name is reported when it is read, and nothing else is. Only the expressions
that are dropped from an attribute that binds a namespace spoil the account. -/

namespace XQuerySyntax

/-- What is recorded for an unbound name with this qualifier. -/
def unboundMessage (qualifier : String) : String :=
  "namespace prefix '" ++ qualifier ++ "' is not declared"

/-- The messages about unbound names among diagnostics. -/
def unboundReports (ds : List Diagnostic) : List String :=
  (ds.filter fun d => d.code = .unknownPrefix).map Diagnostic.message

/-! ### What is in hand -/

/-- Names without a namespace and expressions that are in hand. -/
structure Stock where
  names : List String
  exprs : List Expr

@[simp]
theorem flatMap_none {α β : Type} (as : List α) : (as.flatMap fun _ => ([] : List β)) = [] := by
  induction as with
  | nil => rfl
  | cons a as ih => rw [List.flatMap_cons, ih, List.append_nil]

namespace Stock

variable {α β : Type}

/-- Nothing. -/
def empty : Stock := ⟨[], []⟩

instance : Append Stock := ⟨fun t u => ⟨t.names ++ u.names, t.exprs ++ u.exprs⟩⟩

/-- What a part of a tree holds: names of its own, and expressions. -/
def both (own : α → List String) (children : α → List Expr) (a : α) : Stock := ⟨own a, children a⟩

/-- What a part of a tree without expressions holds. -/
def naming (own : α → List String) (a : α) : Stock := ⟨own a, []⟩

/-- What a form holds: its names and the expressions inside it. -/
abbrev form : ExprKind Expr → Stock := both ExprKind.unbound ExprKind.children

/-- A single expression. -/
def one (e : Expr) : Stock := ⟨[], [e]⟩

/-- What several parts hold. -/
def all (f : α → Stock) (as : List α) : Stock :=
  ⟨as.flatMap fun a => (f a).names, as.flatMap fun a => (f a).exprs⟩

/-- What a part holds that may not be there. -/
def maybe (f : α → Stock) (found : Option α) : Stock := found.elim empty f

/-- What a pair holds. -/
def pair (f : α → Stock) (g : β → Stock) (p : α × β) : Stock := f p.1 ++ g p.2

@[simp] theorem names_empty : empty.names = [] := rfl
@[simp] theorem exprs_empty : empty.exprs = [] := rfl
@[simp] theorem names_append (t u : Stock) : (t ++ u).names = t.names ++ u.names := rfl
@[simp] theorem exprs_append (t u : Stock) : (t ++ u).exprs = t.exprs ++ u.exprs := rfl
@[simp] theorem names_both (own : α → List String) (children : α → List Expr) (a : α) :
    (both own children a).names = own a := rfl
@[simp] theorem exprs_both (own : α → List String) (children : α → List Expr) (a : α) :
    (both own children a).exprs = children a := rfl
@[simp] theorem names_naming (own : α → List String) (a : α) : (naming own a).names = own a := rfl
@[simp] theorem exprs_naming (own : α → List String) (a : α) : (naming own a).exprs = [] := rfl
@[simp] theorem names_one (e : Expr) : (one e).names = [] := rfl
@[simp] theorem exprs_one (e : Expr) : (one e).exprs = [e] := rfl
@[simp] theorem names_all (f : α → Stock) (as : List α) :
    (all f as).names = as.flatMap fun a => (f a).names := rfl
@[simp] theorem exprs_all (f : α → Stock) (as : List α) :
    (all f as).exprs = as.flatMap fun a => (f a).exprs := rfl
@[simp] theorem names_pair (f : α → Stock) (g : β → Stock) (p : α × β) :
    (pair f g p).names = (f p.1).names ++ (g p.2).names := rfl
@[simp] theorem exprs_pair (f : α → Stock) (g : β → Stock) (p : α × β) :
    (pair f g p).exprs = (f p.1).exprs ++ (g p.2).exprs := rfl
@[simp] theorem all_nil (f : α → Stock) : all f [] = empty := rfl
@[simp] theorem maybe_none (f : α → Stock) : maybe f none = empty := rfl
@[simp] theorem maybe_some (f : α → Stock) (a : α) : maybe f (some a) = f a := rfl

@[simp] theorem names_maybe (f : α → Stock) (found : Option α) :
    (maybe f found).names = found.toList.flatMap fun a => (f a).names := by
  cases found <;> simp

@[simp] theorem exprs_maybe (f : α → Stock) (found : Option α) :
    (maybe f found).exprs = found.toList.flatMap fun a => (f a).exprs := by
  cases found <;> simp

theorem eq_of {t u : Stock} (hn : t.names = u.names) (he : t.exprs = u.exprs) : t = u := by
  cases t
  cases u
  simp only at hn he
  rw [hn, he]

@[simp] theorem append_empty (t : Stock) : t ++ empty = t :=
  eq_of (List.append_nil _) (List.append_nil _)

theorem append_assoc (t u v : Stock) : t ++ u ++ v = t ++ (u ++ v) :=
  eq_of (List.append_assoc ..) (List.append_assoc ..)

/-- The qualifiers of all unbound names in hand. -/
def unbound (t : Stock) : List String := t.names ++ t.exprs.flatMap Expr.unbound

/-- A form takes its names and its expressions into a node. -/
theorem unbound_node (t : Stock) (kind : ExprKind Expr) (offset : Nat) (module : ModuleId) :
    (t ++ one ⟨kind, offset, module⟩).unbound.Perm
      (t ++ form kind).unbound := by
  have hnode : (Expr.mk kind offset module).unbound =
      kind.unbound ++ kind.children.flatMap Expr.unbound := by
    rw [Expr.unbound, Expr.nodes, List.flatMap_cons]
    refine congrArg _ ?_
    simp only [List.flatMap_assoc, List.flatMap_subtype, List.unattach_attach]
    rfl
  simp only [unbound, names_append, exprs_append, names_one, exprs_one, names_both, exprs_both,
    List.flatMap_append, List.flatMap_singleton, hnode, List.append_nil]
  refine List.perm_iff_count.2 fun q => ?_
  simp only [List.count_append]
  omega

end Stock

/-! ### Reports -/

/-- Every unbound name in hand is reported, and unless an expression has been dropped nothing else is. -/
structure ParserState.Reports (t : Stock) (s : ParserState) : Prop where
  least : (t.unbound.map unboundMessage).Subperm (unboundReports s.recorded)
  exact : ¬s.Spoiled → (unboundReports s.recorded).Perm (t.unbound.map unboundMessage)

theorem ParserState.Reports.perm {t u : Stock} {s : ParserState} (h : s.Reports t)
    (hp : t.unbound.Perm u.unbound) : s.Reports u where
  least := (hp.map unboundMessage).symm.subperm.trans h.least
  exact hs := (h.exact hs).trans (hp.map unboundMessage)

theorem ParserState.Reports.of_recorded {t : Stock} {s s' : ParserState} (h : s.Reports t)
    (hr : s'.recorded = s.recorded) : s'.Reports t := by
  obtain ⟨hleast, hexact⟩ := h
  unfold ParserState.Spoiled at hexact
  rw [← hr] at hleast hexact
  exact ⟨hleast, hexact⟩

/-- Another diagnostic may be recorded, if it is not about an unbound name. -/
theorem ParserState.Reports.note {t : Stock} {s : ParserState} {d : Diagnostic} (h : s.Reports t)
    (hd : d.code ≠ .unknownPrefix) : ({ s with recorded := s.recorded ++ [d] } : ParserState).Reports t := by
  have hsame : unboundReports (s.recorded ++ [d]) = unboundReports s.recorded := by
    simp [unboundReports, hd]
  refine ⟨by rw [hsame]; exact h.least, fun hs => ?_⟩
  rw [hsame]
  exact h.exact fun ⟨d', hd', hc⟩ => hs ⟨d', List.mem_append_left _ hd', hc⟩

/-- An unbound name comes into hand together with its report. -/
theorem ParserState.Reports.note_unbound {t u : Stock} {s : ParserState} {qualifier : String} {offset : Nat}
    (h : s.Reports t) (hu : u.unbound.Perm (qualifier :: t.unbound)) :
    ({ s with recorded := s.recorded ++
      [.error .unknownPrefix offset (unboundMessage qualifier)] } : ParserState).Reports u := by
  have hmore : (unboundReports (s.recorded ++
      [.error .unknownPrefix offset (unboundMessage qualifier)])).Perm
      (unboundMessage qualifier :: unboundReports s.recorded) := by
    have hlast : unboundReports (s.recorded ++
        [.error .unknownPrefix offset (unboundMessage qualifier)]) =
        unboundReports s.recorded ++ [unboundMessage qualifier] := by
      simp [unboundReports, Diagnostic.error]
    rw [hlast]
    exact List.perm_append_comm
  have hu' := hu.map unboundMessage
  refine ⟨hu'.subperm.trans ((List.subperm_cons _).2 h.least |>.trans hmore.symm.subperm), fun hs => ?_⟩
  refine hmore.trans (((h.exact fun ⟨d', hd', hc⟩ => ?_).cons _).trans hu'.symm)
  exact hs ⟨d', List.mem_append_left _ hd', hc⟩

/-- Once an expression has been dropped, less may be in hand than is reported. -/
theorem ParserState.Reports.drop {t u : Stock} {s : ParserState} (h : s.Reports (t ++ u))
    (hs : s.Spoiled) : s.Reports t := by
  have hsub : t.unbound.Sublist (t ++ u).unbound := by
    refine (List.sublist_append_left ..).append ?_
    rw [Stock.exprs_append, List.flatMap_append]
    exact List.sublist_append_left ..
  exact ⟨(hsub.map unboundMessage).subperm.trans h.least, fun hn => absurd hs hn⟩

namespace Parser

variable {α β σ : Type} {t : Stock} {p : Parser α} {next : α → Parser β} {f : α → Stock} {g : β → Stock}
  {u : α → Stock} {v : β → Stock}

/-- From a state with `t` in hand the parser comes to a state with as much in hand as its answer says,
unless it stops. -/
abbrev Carries (t : Stock) (p : Parser α) (u : α → Stock) : Prop :=
  Contract (ParserState.Reports t) p (fun a => ParserState.Reports (u a)) fun _ _ => True

/-- Whatever is in hand, the parser adds what its answer holds. -/
def Accounts (p : Parser α) (f : α → Stock) : Prop := ∀ t, Carries t p fun a => t ++ f a

/-- Whatever is in hand, the parser adds nothing. -/
def Quiet (p : Parser α) : Prop := ∀ t, Carries t p fun _ => t

/-- A parser of expressions. -/
abbrev Builds (p : Parser Expr) : Prop := Accounts p .one

/-- A parser of expressions that may not be there. -/
abbrev BuildsOptional (p : Parser (Option Expr)) : Prop := Accounts p (.maybe .one)

/-! ### Composition -/

theorem Accounts.bind (h : Accounts p f) (hn : ∀ a, Carries (t ++ f a) (next a) v) :
    Carries t (p >>= next) v := Contract.bind (h t) hn

theorem Quiet.bind (h : Quiet p) (hn : ∀ a, Carries t (next a) v) : Carries t (p >>= next) v :=
  Contract.bind (h t) hn

theorem Quiet.seq (h : Quiet p) (hn : ∀ a, Quiet (next a)) : Quiet (p >>= next) :=
  fun _ => h.bind fun a => hn a _

theorem Quiet.accounts (h : Quiet p) (hf : ∀ a, f a = .empty) : Accounts p f := by
  intro t
  refine Contract.weaken (h t) (fun _ hs => hs) fun a s hs => ?_
  beta_reduce
  rw [hf, Stock.append_empty]
  exact hs

theorem carries_pure {a : α} (hn : t.names = (u a).names) (he : t.exprs = (u a).exprs) :
    Carries t (pure a) u := by
  intro s hs
  rw [Stock.eq_of hn he] at hs
  exact hs

/-- What is in hand may be written in another way. -/
theorem Carries.of_eq {t' : Stock} (h : Carries t' p u) (hn : t.names = t'.names)
    (he : t.exprs = t'.exprs) : Carries t p u := by
  rwa [← Stock.eq_of hn he] at h

theorem quiet_pure (a : α) : Quiet (pure a : Parser α) := fun _ _ hs => hs

theorem carries_ite {c : Prop} [Decidable c] {no : Parser α} (hy : c → Carries t p u)
    (hn : ¬c → Carries t no u) : Carries t (if c then p else no) u := Contract.ite hy hn

theorem quiet_ite {c : Prop} [Decidable c] {no : Parser α} (hy : Quiet p) (hn : Quiet no) :
    Quiet (if c then p else no) := fun t => carries_ite (fun _ => hy t) fun _ => hn t

theorem Accounts.map (φ : α → β) (h : Accounts p f) (hg : ∀ a, g (φ a) = f a) : Accounts (φ <$> p) g := by
  refine fun t => Contract.map φ (Contract.weaken (h t) (fun _ hs => hs) fun a s hs => ?_)
  beta_reduce
  rw [hg]
  exact hs

/-- What is read into something that may not be there. -/
theorem Accounts.some (h : Accounts p f) : Accounts (do return some (← p)) (.maybe f) :=
  fun _ => h.bind fun _ => carries_pure rfl rfl

theorem accounts_none : Accounts (pure none : Parser (Option α)) (.maybe f) := by
  refine fun t => carries_pure ?_ ?_
  · exact (List.append_nil _).symm
  · exact (List.append_nil _).symm

theorem quiet_forIn {body : α → Parser PUnit} (h : ∀ x, Quiet (body x)) (xs : List α) :
    Quiet (forIn xs PUnit.unit fun x _ => do
      body x
      return ForInStep.yield PUnit.unit) :=
  fun t => Contract.forIn (fun x => h x t) xs

/-! ### Steps that have nothing to do with names -/

theorem quiet_of_recorded (h : ∀ s a s', p s = .ok a s' → s'.recorded = s.recorded) : Quiet p := by
  intro t s hs
  cases hr : p s with
  | ok a s' => exact hs.of_recorded (h s a s' hr)
  | error e s' => trivial

theorem quiet_get : Quiet (get : Parser ParserState) := fun _ _ hs => hs

theorem quiet_observe (φ : Matcher → α) {there : Matcher → Bool} : Quiet (observe φ there) :=
  fun _ _ hs => hs.of_recorded rfl

theorem quiet_consult (φ : StaticContext → α) : Quiet (consult φ) := quiet_get.seq fun _ => quiet_pure _

theorem quiet_modifyGet {φ : ParserState → α × ParserState} (h : ∀ s, (φ s).2.recorded = s.recorded) :
    Quiet (modifyGet φ) := fun _ _ hs => hs.of_recorded (h _)

theorem quiet_modify {φ : ParserState → ParserState} (h : ∀ s, (φ s).recorded = s.recorded) :
    Quiet (modify φ) := fun _ _ hs => hs.of_recorded (h _)

theorem quiet_amend (φ : StaticContext → StaticContext) : Quiet (amend φ) := quiet_modify fun _ => rfl

theorem quiet_amendGet (φ : StaticContext → α × StaticContext) : Quiet (amendGet φ) :=
  quiet_modifyGet fun _ => rfl

theorem quiet_scan (step : Scan α) : Quiet (scan step) := by
  refine quiet_of_recorded fun s a s' h => ?_
  unfold scan at h
  cases hr : step s.scan <;> rw [hr] at h <;> cases h
  rfl

theorem quiet_goto (state : LexicalState) : Quiet (goto state) := quiet_modify fun _ => rfl

theorem quiet_restore (place : Matcher.Mark) : Quiet (restore place) := quiet_modify fun _ => rfl

theorem quiet_note {d : Diagnostic} (h : d.code ≠ .unknownPrefix) : Quiet (note d) :=
  fun _ _ hs => hs.note h

theorem quiet_record {code : ErrorCode} (h : code ≠ .unknownPrefix) (offset : Nat) (message : String) :
    Quiet (record code offset message) := quiet_note h

theorem quiet_warn {code : ErrorCode} (h : code ≠ .unknownPrefix) (offset : Nat) (message : String) :
    Quiet (warn code offset message) := quiet_note h

theorem carries_fatal (code : ErrorCode) (offset : Nat) (message : String) :
    Carries t (fatal code offset message) u := fun _ _ => trivial

/-- Nothing comes behind an error that stops. -/
theorem carries_fatal_bind (code : ErrorCode) (offset : Nat) (message : String) :
    Carries t (fatal code offset message >>= next) v := by
  have hstop : Contract (ParserState.Reports t) (fatal code offset message : Parser α) (fun _ _ => False)
      fun _ _ => True := fun _ _ => trivial
  exact hstop.bind fun _ _ h => h.elim

theorem carries_exhausted : Carries t exhausted u := fun _ _ => trivial

theorem carries_unexpected (expected : String) : Carries t (unexpected expected) u :=
  (quiet_observe id).bind fun _ => carries_fatal _ _ _

theorem quiet_unexpected (expected : String) : Quiet (unexpected expected : Parser α) :=
  fun _ => carries_unexpected expected

/-- Nothing comes behind an error that stops. -/
theorem carries_unexpected_bind (expected : String) : Carries t (unexpected expected >>= next) v := by
  have hstop : Contract (ParserState.Reports t) (unexpected expected : Parser α) (fun _ _ => False)
      fun _ _ => True := Contract.bind (quiet_observe id t) fun _ _ _ => trivial
  exact hstop.bind fun _ _ h => h.elim

theorem quiet_eat (r : Rule) : Quiet (eat r) := quiet_scan _

theorem quiet_peek (r : Rule) : Quiet (peek r) := quiet_scan _

theorem quiet_expect (r : Rule) : Quiet (expect r) :=
  (quiet_eat r).seq fun _ => quiet_ite (quiet_unexpected _) (quiet_pure ())

/-- A production that goes one way if a rule matches and another way if it does not. -/
theorem carries_ifEat {r : Rule} {yes no : Parser α} (hy : Carries t yes u) (hn : Carries t no u) :
    Carries t (eat r >>= fun matched => if matched then yes else no) u :=
  (quiet_eat r).bind fun _ => carries_ite (fun _ => hy) fun _ => hn

theorem carries_ifPeek {r : Rule} {yes no : Parser α} (hy : Carries t yes u) (hn : Carries t no u) :
    Carries t (peek r >>= fun matched => if matched then yes else no) u :=
  (quiet_peek r).bind fun _ => carries_ite (fun _ => hy) fun _ => hn

theorem quiet_eatFirst (table : List (Rule × α)) : Quiet (eatFirst table) := by
  induction table with
  | nil => exact quiet_pure none
  | cons entry rest ih => exact fun t => carries_ifEat (quiet_pure _ t) (ih t)

/-- Values that hold nothing. -/
theorem accounts_eatFirst {table : List (Rule × α)} (h : ∀ x ∈ table, f x.2 = .empty) :
    Accounts (eatFirst table) (.maybe f) := by
  induction table with
  | nil => exact accounts_none
  | cons entry rest ih =>
    obtain ⟨hentry, hrest⟩ := List.forall_mem_cons.1 h
    refine fun t => carries_ifEat (carries_pure ?_ ?_) (ih hrest t)
    · simp [hentry]
    · simp [hentry]

theorem accounts_whenEats {r : Rule} (h : Accounts p f) : Accounts (whenEats r p) (.maybe f) :=
  fun t => carries_ifEat (h.some t) (accounts_none t)

/-! ### Nodes, nesting and loops -/

/-- A node takes the names and the expressions of its form out of hand. -/
theorem carries_node {rest : Stock} {kind : ExprKind Expr} {offset : Nat}
    (hn : t.names = rest.names ++ kind.unbound) (he : t.exprs = rest.exprs ++ kind.children) :
    Carries t (node kind offset) fun e => rest ++ .one e := by
  refine quiet_get.bind fun s => fun s' hs => ?_
  rw [Stock.eq_of (t := t) (u := rest ++ .form kind) hn he] at hs
  exact hs.perm (rest.unbound_node kind offset s.module).symm

theorem carries_someNode {rest : Stock} {kind : ExprKind Expr} {offset : Nat}
    (hn : t.names = rest.names ++ kind.unbound) (he : t.exprs = rest.exprs ++ kind.children) :
    Carries t (do return some (← node kind offset)) fun found => rest ++ .maybe .one found :=
  Contract.bind (carries_node hn he) fun _ => carries_pure rfl rfl

theorem carries_nested (h : Carries t p u) : Carries t (nested p) u := by
  have hdeeper : Quiet (modify fun s => { s with depth := s.depth + 1 }) := quiet_modify fun _ => rfl
  have hback : Quiet (modify fun s => { s with depth := s.depth - 1 }) := quiet_modify fun _ => rfl
  refine hdeeper.bind fun _ => quiet_get.bind fun s => ?_
  refine carries_ite (fun _ => carries_fatal_bind _ _ _) fun _ => Contract.bind h fun a => ?_
  exact hback.bind fun _ => fun _ hs => hs

theorem accounts_manyWithin {p : Parser (Option α)} (h : Accounts p (.maybe f)) (n : Nat) :
    Accounts (manyWithin p n) (.all f) := by
  induction n with
  | zero => exact fun _ => carries_exhausted
  | succ n ih =>
    refine fun t => h.bind ?_
    rintro (_ | a)
    · exact carries_pure (by simp) (by simp)
    · exact ih.bind fun as => carries_pure (by simp) (by simp)

theorem accounts_many {p : Parser (Option α)} (h : Accounts p (.maybe f)) :
    Accounts (many p) (.all f) :=
  fun _ => quiet_get.bind fun _ => accounts_manyWithin h _ _

theorem accounts_separatedBy {separator : Rule} (h : Accounts p f) :
    Accounts (separatedBy separator p) (.all f) :=
  fun _ => h.bind fun _ => (accounts_many (accounts_whenEats h)).bind fun _ =>
    carries_pure (by simp) (by simp)

/-- A loop over a value that has something in hand too. -/
theorem carries_iterate {step : σ → Parser (σ ⊕ α)} {w : σ → Stock}
    (h : ∀ a, Carries (t ++ w a) (step a) fun next => t ++ Sum.elim w f next) (init : σ) :
    Carries (t ++ w init) (iterate step init) fun a => t ++ f a := by
  refine quiet_get.bind fun s => ?_
  induction s.steps generalizing init with
  | zero => exact carries_exhausted
  | succ n ih =>
    refine Contract.bind (h init) ?_
    rintro (next | result)
    · exact ih next
    · exact fun _ hs => hs

/-- A loop that begins with nothing in hand. -/
theorem accounts_iterate {step : σ → Parser (σ ⊕ α)} {w : σ → Stock} {init : σ}
    (h : ∀ t a, Carries (t ++ w a) (step a) fun next => t ++ Sum.elim w f next) (hi : w init = .empty) :
    Accounts (iterate step init) f := by
  intro t
  have hloop := carries_iterate (h t) init
  rwa [hi, Stock.append_empty] at hloop

/-! ### Loops without names -/

theorem Stock.all_empty (as : List α) : Stock.all (fun _ => .empty) as = .empty := by
  refine Stock.eq_of ?_ ?_ <;> simp

theorem Stock.maybe_empty (found : Option α) : Stock.maybe (fun _ : α => .empty) found = .empty := by
  cases found <;> rfl

theorem quiet_whenEats {r : Rule} (h : Quiet p) : Quiet (whenEats r p) :=
  fun t => carries_ifEat (h.seq (fun _ => quiet_pure _) t) (quiet_pure _ t)

theorem quiet_many {p : Parser (Option α)} (h : Quiet p) : Quiet (many p) := by
  have haccounts : Accounts p (.maybe fun _ => .empty) := h.accounts Stock.maybe_empty
  intro t
  have hmany := accounts_many haccounts t
  simp only [Stock.all_empty, Stock.append_empty] at hmany
  exact hmany

theorem quiet_separatedBy {separator : Rule} (h : Quiet p) : Quiet (separatedBy separator p) :=
  h.seq fun _ => (quiet_many (quiet_whenEats h)).seq fun _ => quiet_pure _

theorem quiet_iterate {step : σ → Parser (σ ⊕ α)} (h : ∀ a, Quiet (step a)) (init : σ) :
    Quiet (iterate step init) := by
  intro t
  have hstep (a : σ) : Carries (t ++ .empty) (step a)
      fun next => t ++ Sum.elim (fun _ => Stock.empty) (fun _ => .empty) next := by
    refine Contract.weaken (h a t) (fun _ hs => ?_) ?_
    · rwa [Stock.append_empty] at hs
    · rintro (_ | _) s hs <;> simpa using hs
  have hloop := carries_iterate (w := fun _ => .empty) (f := fun _ => .empty) hstep init
  simp only [Stock.append_empty] at hloop
  exact hloop

end Parser

end XQuerySyntax
