import XQuerySyntax.Grammar.Parser
import XQuerySyntax.Proofs.Rollback
import XQuerySyntax.Proofs.Order.Position
import XQuerySyntax.Proofs.Order.Tree

/-! Parsers move on in the text. What a parser gives stands behind the place where it begins, and once an
expression has been read the next one begins behind the place of the first. -/

namespace XQuerySyntax

/-- An expression that is in order behind a bound; the matcher has come past the place where it stands. -/
structure Expr.Stands (n b : Nat) (e : Expr) (m : Matcher) : Prop where
  order : e.InOrder b
  behind : m.Behind n (e.offset + 1)

theorem Expr.Stands.mono {n b b' : Nat} {e : Expr} {m : Matcher} (h : e.Stands n b m) (hb : b' ≤ b) :
    e.Stands n b' m := ⟨h.order.mono hb, h.behind⟩

/-- Where the bound is passed once more if something has been found. -/
abbrev Matcher.Finds {α : Type} (n b : Nat) (post : α → Matcher → Prop) (found : Option α) (m : Matcher) :
    Prop := found.elim (m.Behind n b) (post · m)

/-- Behind a bound a rule can be matched. -/
structure Matcher.Faces (r : Rule) (n b : Nat) (m : Matcher) : Prop where
  behind : m.Behind n b
  ready : (Scan.eat r m).answer = .ok true

namespace Order

open XQuerySyntax.Parser

variable {α β σ : Type} {n b c : Nat} {pre : Matcher → Prop} {p : Parser α} {next : α → Parser β}
  {post : α → Matcher → Prop} {later : β → Matcher → Prop} {good : α → Prop} {better : β → Prop} {r : Rule}

/-- From a matcher of one kind the parser comes to a matcher that fits its answer, unless it stops. -/
abbrev Leads (pre : Matcher → Prop) (p : Parser α) (post : α → Matcher → Prop) : Prop :=
  Contract (fun s => pre s.scan) p (fun a s => post a s.scan) fun _ _ => True

/-- The matcher stays as it is. -/
def Still (p : Parser α) : Prop := ∀ pre : Matcher → Prop, Leads pre p fun _ => pre

/-- The parser does not come back to what is in front of it. -/
def Passes (p : Parser α) : Prop := ∀ n b, Leads (Matcher.Behind n b) p fun _ => Matcher.Behind n b

/-- Behind a bound the parser ends with a good answer, still behind the bound. -/
abbrev Keeps (n b : Nat) (p : Parser α) (good : α → Prop) : Prop :=
  Leads (Matcher.Behind n b) p fun a m => good a ∧ m.Behind n b

/-- A parser of expressions in order. -/
def Builds (p : Parser Expr) : Prop := ∀ n b, Leads (Matcher.Behind n b) p (Expr.Stands n b)

/-- A parser of something that begins with a visible character, if it is there. What is found is good
behind that character. -/
def Begins (p : Parser (Option α)) (good : Nat → α → Prop) : Prop :=
  ∀ n b, Leads (Matcher.Behind n b) p (Matcher.Finds n b fun a m => good (b + 1) a ∧ m.Behind n (b + 1))

/-- A parser of expressions that may not be there. -/
def BuildsOptional (p : Parser (Option Expr)) : Prop :=
  ∀ n b, Leads (Matcher.Behind n b) p (Matcher.Finds n b (Expr.Stands n b))

/-! ### Composition -/

theorem leads_pure {a : α} (h : ∀ m, pre m → post a m) : Leads pre (pure a) post := fun _ hs => h _ hs

theorem leads_ite {q : Prop} [Decidable q] {no : Parser α} (hy : q → Leads pre p post)
    (hn : ¬q → Leads pre no post) : Leads pre (if q then p else no) post := Contract.ite hy hn

theorem Leads.bind (h : Leads pre p post) (hn : ∀ a, Leads (post a) (next a) later) :
    Leads pre (p >>= next) later := Contract.bind h hn

theorem Still.bind (h : Still p) (hn : ∀ a, Leads pre (next a) later) : Leads pre (p >>= next) later :=
  Contract.bind (h pre) hn

theorem Still.seq (h : Still p) (hn : ∀ a, Still (next a)) : Still (p >>= next) :=
  fun pre => h.bind fun a => hn a pre

theorem Still.passes (h : Still p) : Passes p := fun _ _ => h _

theorem still_pure (a : α) : Still (pure a : Parser α) := fun _ _ hs => hs

theorem still_ite {q : Prop} [Decidable q] {no : Parser α} (hy : Still p) (hn : Still no) :
    Still (if q then p else no) := fun pre => leads_ite (fun _ => hy pre) fun _ => hn pre

theorem Passes.bind (h : Passes p) (hn : ∀ a, Leads (Matcher.Behind n b) (next a) later) :
    Leads (Matcher.Behind n b) (p >>= next) later := Contract.bind (h n b) hn

theorem Passes.seq (h : Passes p) (hn : ∀ a, Passes (next a)) : Passes (p >>= next) :=
  fun n b => h.bind fun a => hn a n b

theorem passes_map (φ : α → β) (h : Passes p) : Passes (φ <$> p) := fun n b => Contract.map φ (h n b)

theorem passes_ite {q : Prop} [Decidable q] {no : Parser α} (hy : Passes p) (hn : Passes no) :
    Passes (if q then p else no) := fun n b => leads_ite (fun _ => hy n b) fun _ => hn n b

theorem passes_pure (a : α) : Passes (pure a : Parser α) := (still_pure a).passes

/-- What is known of an answer is known before the rest begins. -/
theorem Keeps.bind (h : Keeps n b p good) (hn : ∀ a, good a → Leads (Matcher.Behind n b) (next a) later) :
    Leads (Matcher.Behind n b) (p >>= next) later :=
  Contract.bind h fun a s hs => hn a hs.1 s hs.2

theorem Builds.bind {p : Parser Expr} {next : Expr → Parser β} (h : Builds p)
    (hn : ∀ e, e.InOrder b → Leads (Matcher.Behind n (e.offset + 1)) (next e) later) :
    Leads (Matcher.Behind n b) (p >>= next) later :=
  Contract.bind (h n b) fun e s hs => hn e hs.order s hs.behind

/-- Behind an expression the bound may stay where it was. -/
theorem Leads.keeps {p : Parser Expr} (h : Leads pre p (Expr.Stands n b)) :
    Leads pre p fun e m => e.InOrder b ∧ m.Behind n b :=
  Contract.weaken h (fun _ hs => hs) fun _ _ hs =>
    ⟨hs.order, hs.behind.mono (Nat.le_succ_of_le hs.order.offset)⟩

theorem Builds.keeps {p : Parser Expr} (h : Builds p) : Keeps n b p (Expr.InOrder b) := Leads.keeps (h n b)

theorem Begins.passes {p : Parser (Option α)} {good : Nat → α → Prop} (h : Begins p good) : Passes p := by
  refine fun n b => Contract.weaken (h n b) (fun _ hs => hs) fun found s hs => ?_
  cases found with
  | none => exact hs
  | some a => exact hs.2.mono (Nat.le_succ b)

theorem Begins.keeps {p : Parser (Option α)} {better : Nat → α → Prop} (h : Begins p better)
    (hg : ∀ a, better (b + 1) a → good a) : Keeps n b p fun found => ∀ a ∈ found, good a := by
  refine Contract.weaken (h n b) (fun _ hs => hs) fun found s hs => ?_
  cases found with
  | none => exact ⟨nofun, hs⟩
  | some a =>
    refine ⟨?_, hs.2.mono (Nat.le_succ b)⟩
    rintro _ ⟨⟩
    exact hg a hs.1

theorem Passes.keeps (h : Passes p) (hg : ∀ a, good a) : Keeps n b p good :=
  Contract.weaken (h n b) (fun _ hs => hs) fun a _ hs => ⟨hg a, hs⟩

theorem Keeps.map (φ : α → β) (h : Keeps n b p good) (hg : ∀ a, good a → better (φ a)) :
    Keeps n b (φ <$> p) better :=
  Contract.map φ (Contract.weaken h (fun _ hs => hs) fun a _ hs => ⟨hg a hs.1, hs.2⟩)

theorem keeps_pure {a : α} (h : good a) : Keeps n b (pure a) good := leads_pure fun _ hm => ⟨h, hm⟩

/-- What is known of what is found, if anything is. -/
theorem keeps_someOf {a : α} (h : good a) :
    Keeps n b (pure (some a)) fun found => ∀ a ∈ found, good a := by
  refine keeps_pure ?_
  rintro _ ⟨⟩
  exact h

theorem keeps_none : Keeps n b (pure none : Parser (Option α)) fun found => ∀ a ∈ found, good a :=
  keeps_pure fun _ h => nomatch h

theorem Keeps.some (h : Keeps n b p good) :
    Keeps n b (do return some (← p)) fun found => ∀ a ∈ found, good a := by
  refine h.bind fun a ha => keeps_pure ?_
  rintro _ ⟨⟩
  exact ha

theorem Leads.some (h : Leads pre p post) :
    Leads pre (do return some (← p)) (Matcher.Finds n b post) :=
  Contract.bind h fun _ => leads_pure fun _ hm => hm

theorem Builds.some {p : Parser Expr} (h : Builds p) : BuildsOptional (do return some (← p)) :=
  fun n b => Leads.some (h n b)

theorem finds_some {a : α} (h : ∀ m, pre m → post a m) :
    Leads pre (pure (some a)) (Matcher.Finds n b post) := leads_pure h

theorem finds_none : Leads (Matcher.Behind n b) (pure none) (Matcher.Finds n b post) :=
  leads_pure fun _ hm => hm

/-- From behind a token the parser may forget the token. -/
theorem Leads.of_took (h : Leads (Matcher.Behind n (b + 1)) p post) : Leads (Matcher.Took n b) p post :=
  Contract.weaken h (fun _ hs => hs.behind.mono (Nat.succ_le_succ hs.start)) fun _ _ hs => hs

/-- What is known besides the matcher may be assumed. -/
theorem leads_of_and {q : Prop} (h : q → Leads pre p post) : Leads (fun m => q ∧ pre m) p post :=
  fun s hs => h hs.1 s hs.2

/-- Behind an expression the parser goes on from the place of it. -/
theorem leads_of_stands {e : Expr}
    (h : e.InOrder b → Leads (Matcher.Behind n (e.offset + 1)) p post) : Leads (e.Stands n b) p post :=
  fun s hs => h hs.order s hs.behind

/-- The bound in front may be a smaller one. -/
theorem Leads.of_le (h : Leads (Matcher.Behind n c) p post) (hc : c ≤ b) : Leads (Matcher.Behind n b) p post :=
  Contract.weaken h (fun _ hs => hs.mono hc) fun _ _ hs => hs

theorem Leads.weaken {post' : α → Matcher → Prop} (h : Leads pre p post) (hp : ∀ a m, post a m → post' a m) :
    Leads pre p post' := Contract.weaken h (fun _ hs => hs) fun a s hs => hp a s.scan hs

/-! ### Steps that leave the matcher as it is -/

theorem still_get : Still (get : Parser ParserState) := fun _ _ hs => hs

theorem still_observe (φ : Matcher → α) {there : Matcher → Bool} : Still (observe φ there) :=
  fun _ _ hs => hs

theorem still_consult (φ : StaticContext → α) : Still (consult φ) := still_get.seq fun _ => still_pure _

theorem still_modify {φ : ParserState → ParserState} (h : ∀ s, (φ s).scan = s.scan) : Still (modify φ) := by
  intro pre s hs
  change pre (φ s).scan
  rwa [h]

theorem still_modifyGet {φ : ParserState → α × ParserState} (h : ∀ s, (φ s).2.scan = s.scan) :
    Still (modifyGet φ) := by
  intro pre s hs
  change pre (φ s).2.scan
  rwa [h]

theorem still_amend (φ : StaticContext → StaticContext) : Still (amend φ) := still_modify fun _ => rfl

theorem still_amendGet (φ : StaticContext → α × StaticContext) : Still (amendGet φ) :=
  still_modifyGet fun _ => rfl

theorem still_note (d : Diagnostic) : Still (note d) := still_modify fun _ => rfl

theorem still_record (code : ErrorCode) (offset : Nat) (message : String) : Still (record code offset message) :=
  still_note _

theorem passes_observe (φ : Matcher → α) {there : Matcher → Bool} : Passes (observe φ there) :=
  (still_observe φ).passes

theorem passes_consult (φ : StaticContext → α) : Passes (consult φ) := (still_consult φ).passes

theorem passes_amend (φ : StaticContext → StaticContext) : Passes (amend φ) := (still_amend φ).passes

theorem passes_amendGet (φ : StaticContext → α × StaticContext) : Passes (amendGet φ) :=
  (still_amendGet φ).passes

theorem passes_record (code : ErrorCode) (offset : Nat) (message : String) :
    Passes (record code offset message) := (still_record code offset message).passes

theorem still_forIn {body : α → Parser PUnit} (h : ∀ x, Still (body x)) (xs : List α) :
    Still (forIn xs PUnit.unit fun x _ => do
      body x
      return ForInStep.yield PUnit.unit) :=
  fun pre => Contract.forIn (fun x => h x pre) xs

theorem leads_fatal (code : ErrorCode) (offset : Nat) (message : String) :
    Leads pre (fatal code offset message) post := fun _ _ => trivial

/-- Nothing comes behind an error that stops. -/
theorem leads_fatal_bind (code : ErrorCode) (offset : Nat) (message : String) :
    Leads pre (fatal code offset message >>= next) later := by
  have hstop : Leads pre (fatal code offset message : Parser α) fun _ _ => False := fun _ _ => trivial
  exact hstop.bind fun _ _ h => h.elim

theorem leads_exhausted : Leads pre exhausted post := fun _ _ => trivial

theorem leads_unexpected (expected : String) : Leads pre (unexpected expected) post :=
  (still_observe id).bind fun _ => leads_fatal _ _ _

theorem leads_unexpected_bind (expected : String) : Leads pre (unexpected expected >>= next) later := by
  have hstop : Leads pre (unexpected expected : Parser α) fun _ _ => False := leads_unexpected _
  exact hstop.bind fun _ _ h => h.elim

theorem passes_unexpected (expected : String) : Passes (unexpected expected : Parser α) :=
  fun _ _ => leads_unexpected expected

/-! ### Steps of the matcher -/

theorem leads_scan {step : Scan α} (h : ∀ m a m', pre m → step m = .ok a m' → post a m') :
    Leads pre (scan step) post := by
  intro s hs
  unfold scan
  cases hr : step s.scan with
  | ok a m => exact h s.scan a m hs hr
  | error d m => trivial

/-- A rule may match. If it begins with a visible character the token is known to be behind the bound. -/
theorem leads_eat (hr : r.isVisible = true) : Leads (Matcher.Behind n b) (eat r) fun matched m =>
    if matched then m.Took n b else m.Behind n b := by
  refine leads_scan fun m matched m' hm h => ?_
  cases matched with
  | true => exact hm.took hr h
  | false =>
    have hplace := Scan.samePlace_of_eat h
    exact hm.of_suffix (congrArg Cursor.size hplace.cursor)
      (congrArg Cursor.rest hplace.cursor ▸ List.suffix_rfl)

theorem leads_ifEat {yes no : Parser α} (hr : r.isVisible = true) (hy : Leads (Matcher.Took n b) yes post)
    (hn : Leads (Matcher.Behind n b) no post) :
    Leads (Matcher.Behind n b) (eat r >>= fun matched => if matched then yes else no) post := by
  refine Contract.bind (leads_eat hr) fun matched => ?_
  cases matched with
  | true => exact hy
  | false => exact hn

/-- What follows a match may forget where the token stands. -/
theorem leads_ifEatPast {yes no : Parser α} (hr : r.isVisible = true)
    (hy : Leads (Matcher.Behind n (b + 1)) yes post) (hn : Leads (Matcher.Behind n b) no post) :
    Leads (Matcher.Behind n b) (eat r >>= fun matched => if matched then yes else no) post :=
  leads_ifEat hr hy.of_took hn

theorem passes_eat (r : Rule) : Passes (eat r) := by
  refine fun n b => leads_scan fun m matched m' hm h => ?_
  refine hm.of_suffix (Scan.settings_eat h).size ?_
  cases matched with
  | true =>
    obtain ⟨htoken, hrest, -⟩ := Scan.suffix_of_eat h
    exact hrest.trans htoken
  | false => exact congrArg Cursor.rest (Scan.samePlace_of_eat h).cursor ▸ List.suffix_rfl

theorem behind_peek {m m' : Matcher} {matched : Bool} (hm : m.Behind n b)
    (h : Scan.peek r m = .ok matched m') : m'.Behind n b := by
  obtain ⟨-, token, captures, hstate⟩ := Scan.peek_cases r m
  rw [h] at hstate
  obtain rfl : m' = { m with token, captures } := hstate
  exact ⟨hm.size, hm.place⟩

theorem passes_peek (r : Rule) : Passes (peek r) :=
  fun _ _ => leads_scan fun _ _ _ hm h => behind_peek hm h

theorem passes_lexeme {scanner : List Char → Scanned α} (h : ∀ text, (scanner text).Within text) :
    Passes (lexeme scanner) := by
  refine fun n b => leads_scan fun m found m' hm hr => ?_
  have hwithin := h m.cursor.rest
  unfold Scan.lexeme at hr
  split at hr <;> rename_i hs <;> cases hr
  · rw [hs] at hwithin
    exact hm.of_suffix rfl hwithin
  · exact hm

theorem passes_atEnd : Passes atEnd := by
  refine fun n b => leads_scan fun m ended m' hm hr => ?_
  have hsize := (Scan.settings_atEnd hr).size
  unfold Scan.atEnd at hr
  split at hr <;> cases hr
  exact hm.of_suffix hsize List.suffix_rfl

theorem passes_goto (state : LexicalState) : Passes (goto state) := fun _ _ _ hs => ⟨hs.size, hs.place⟩

/-- Behind a bound the parser may come back to where it is now. -/
theorem leads_mark_bind {next : Matcher.Mark → Parser β}
    (h : ∀ place, b + byteLength (place.rest.dropWhile Text.isSpace) ≤ n →
      Leads (Matcher.Behind n b) (next place) later) : Leads (Matcher.Behind n b) (mark >>= next) later :=
  fun s hs => h _ hs.place s hs

theorem leads_restore {place : Matcher.Mark} (h : b + byteLength (place.rest.dropWhile Text.isSpace) ≤ n) :
    Leads (Matcher.Behind n b) (restore place) fun _ => Matcher.Behind n b := fun _ hs => ⟨hs.size, h⟩

theorem leads_start_bind {next : Nat → Parser β}
    (hn : ∀ o, b ≤ o → Leads (Matcher.Behind n (o + 1)) (next o) later) :
    Leads (Matcher.Took n b) (start >>= next) later :=
  fun s hs => hn _ hs.start s hs.behind

theorem leads_nextOffset_bind {next : Nat → Parser β}
    (hn : ∀ o, b ≤ o → Leads (Matcher.Behind n o) (next o) later) :
    Leads (Matcher.Behind n b) (nextOffset >>= next) later :=
  fun s hs => hn _ hs.nextOffset.1 s hs.nextOffset.2

theorem leads_expect_bind {next : PUnit → Parser β} (hr : r.isVisible = true)
    (hn : Leads (Matcher.Took n b) (next ()) later) :
    Leads (Matcher.Behind n b) (expect r >>= next) later := by
  have hexpect : Leads (Matcher.Behind n b) (expect r) fun _ => Matcher.Took n b := by
    refine Contract.bind (leads_eat hr) fun matched => ?_
    cases matched with
    | true => exact leads_pure fun _ hm => hm
    | false => exact leads_unexpected _
  exact Contract.bind hexpect fun _ => hn

/-- The bound may stay where it was, whatever the rule. -/
theorem leads_ifEatStay {yes no : Parser α} (hy : Leads (Matcher.Behind n b) yes post)
    (hn : Leads (Matcher.Behind n b) no post) :
    Leads (Matcher.Behind n b) (eat r >>= fun matched => if matched then yes else no) post :=
  (passes_eat r).bind fun _ => leads_ite (fun _ => hy) fun _ => hn

theorem passes_expect (r : Rule) : Passes (expect r) :=
  (passes_eat r).seq fun _ => passes_ite (passes_unexpected _) (passes_pure ())

theorem passes_ifEat {yes no : Parser α} (hy : Passes yes) (hn : Passes no) :
    Passes (eat r >>= fun matched => if matched then yes else no) :=
  (passes_eat r).seq fun _ => passes_ite hy hn

theorem passes_ifPeek {yes no : Parser α} (hy : Passes yes) (hn : Passes no) :
    Passes (peek r >>= fun matched => if matched then yes else no) :=
  (passes_peek r).seq fun _ => passes_ite hy hn

theorem leads_ifPeek {yes no : Parser α} (hy : Leads (Matcher.Behind n b) yes post)
    (hn : Leads (Matcher.Behind n b) no post) :
    Leads (Matcher.Behind n b) (peek r >>= fun matched => if matched then yes else no) post :=
  (passes_peek r).bind fun _ => leads_ite (fun _ => hy) fun _ => hn

/-- A test leaves the rule that it has found to be matched. -/
theorem leads_ifPeekFaces {yes no : Parser α} (hy : Leads (Matcher.Faces r n b) yes post)
    (hn : Leads (Matcher.Behind n b) no post) :
    Leads (Matcher.Behind n b) (peek r >>= fun matched => if matched then yes else no) post := by
  have hpeek : Leads (Matcher.Behind n b) (peek r) fun matched m =>
      m.Behind n b ∧ (matched = true → (Scan.eat r m).answer = .ok true) := by
    refine leads_scan fun m matched m' hm h => ⟨behind_peek hm h, ?_⟩
    rintro rfl
    exact Scan.eat_of_peek h
  refine Contract.bind hpeek fun matched => ?_
  cases matched with
  | true => exact Contract.weaken hy (fun _ hs => ⟨hs.1, hs.2 rfl⟩) fun _ _ hs => hs
  | false => exact Contract.weaken hn (fun _ hs => hs.1) fun _ _ hs => hs

theorem leads_eat_faces (hr : r.isVisible = true) : Leads (Matcher.Faces r n b) (eat r) fun matched m =>
    matched = true ∧ m.Took n b := by
  refine leads_scan fun m matched m' hm h => ?_
  obtain rfl : matched = true := by
    have hready := hm.ready
    rw [h] at hready
    cases hready
    rfl
  exact ⟨rfl, hm.behind.took hr h⟩

theorem leads_whenEats_faces (hr : r.isVisible = true) (h : Leads (Matcher.Took n b) p post) :
    Leads (Matcher.Faces r n b) (whenEats r p) fun found m => ∃ a, found = some a ∧ post a m := by
  refine Contract.bind (leads_eat_faces hr) fun matched => ?_
  rintro s ⟨rfl, hs⟩
  have hfound : Leads (Matcher.Took n b) (do return some (← p)) fun found m => ∃ a, found = some a ∧ post a m :=
    Contract.bind h fun a _ ha => ⟨a, rfl, ha⟩
  exact hfound s hs

theorem leads_eatFirst {table : List (Rule × α)} (h : ∀ x ∈ table, x.1.isVisible = true) :
    Leads (Matcher.Behind n b) (eatFirst table) (Matcher.Finds n b fun _ m => m.Took n b) := by
  induction table with
  | nil => exact finds_none
  | cons entry rest ih =>
    obtain ⟨hentry, hrest⟩ := List.forall_mem_cons.1 h
    exact leads_ifEat hentry (leads_pure fun _ hm => hm) (ih hrest)

theorem leads_ifEatFirst {table : List (Rule × Unit)} {yes no : Parser α}
    (h : ∀ x ∈ table, x.1.isVisible = true) (hy : Leads (Matcher.Behind n (b + 1)) yes post)
    (hn : Leads (Matcher.Behind n b) no post) :
    Leads (Matcher.Behind n b) (eatFirst table >>= fun found => if found.isSome then yes else no) post := by
  refine Contract.bind (leads_eatFirst h) fun found => ?_
  cases found with
  | none => exact hn
  | some _ => exact hy.of_took

theorem passes_eatFirst (table : List (Rule × α)) : Passes (eatFirst table) := by
  induction table with
  | nil => exact passes_pure _
  | cons entry rest ih => exact passes_ifEat (passes_pure _) ih

theorem keeps_eatFirst {table : List (Rule × α)} (h : ∀ x ∈ table, good x.2) :
    Keeps n b (eatFirst table) fun found => ∀ a ∈ found, good a := by
  induction table with
  | nil => exact keeps_none
  | cons entry rest ih =>
    obtain ⟨hentry, hrest⟩ := List.forall_mem_cons.1 h
    exact leads_ifEatStay (keeps_someOf hentry) (ih hrest)

theorem leads_whenEats (hr : r.isVisible = true) (h : Leads (Matcher.Took n b) p post) :
    Leads (Matcher.Behind n b) (whenEats r p) (Matcher.Finds n b post) :=
  leads_ifEat hr h.some finds_none

theorem keeps_whenEats (h : Keeps n b p good) :
    Keeps n b (whenEats r p) fun found => ∀ a ∈ found, good a :=
  (passes_eat r).bind fun _ => leads_ite (fun _ => h.some) fun _ => keeps_none

theorem passes_whenEats (h : Passes p) : Passes (whenEats r p) :=
  passes_ifEat (h.seq fun _ => passes_pure _) (passes_pure _)

/-! ### Nodes -/

theorem leads_node {kind : ExprKind Expr} {offset : Nat}
    (h : ∀ module m, pre m → (Expr.mk kind offset module).Stands n b m) :
    Leads pre (node kind offset) (Expr.Stands n b) :=
  still_get.bind fun _ => leads_pure fun _ hm => h _ _ hm

/-- A node in front of its parts. -/
theorem stands_front {kind : ExprKind Expr} {offset : Nat} (hb : b ≤ offset) (h : kind.InOrder offset) :
    Leads (Matcher.Behind n (offset + 1)) (node kind offset) (Expr.Stands n b) :=
  leads_node fun _ _ hm => ⟨Expr.inOrder_node h hb, hm⟩

/-- A node in front of parts that have been read behind its first character. -/
theorem stands_node {kind : ExprKind Expr} {offset : Nat} (hb : b ≤ offset) (h : kind.InOrder (offset + 1)) :
    Leads (Matcher.Behind n (offset + 1)) (node kind offset) (Expr.Stands n b) :=
  stands_front hb (h.mono (Nat.le_succ offset))

/-- A node at an operator behind its first operand. -/
theorem stands_operator {kind : ExprKind Expr} {left : Expr} {offset : Nat} (hleft : left.offset < offset)
    (h : kind.AtOperator b left) : Leads (Matcher.Behind n (offset + 1)) (node kind offset) (Expr.Stands n b) :=
  leads_node fun _ _ hm => ⟨Expr.inOrder_operator h hleft, hm⟩

/-- A node that stands where its first part stands. -/
theorem stands_leading {kind : ExprKind Expr} {first : Expr} {rest : List Expr} (h : kind.Follows first rest)
    (hfirst : first.InOrder b) (hrest : InOrderAll (first.offset + 1) rest) :
    Leads (Matcher.Behind n (first.offset + 1)) (node kind first.offset) (Expr.Stands n b) :=
  leads_node fun _ _ hm => ⟨Expr.inOrder_leading h hfirst (hrest.mono (Nat.le_succ _)), hm⟩

/-! ### Nesting and loops -/

theorem leads_nested (h : Leads pre p post) : Leads pre (nested p) post := by
  have hdeeper : Still (modify fun s => { s with depth := s.depth + 1 }) := still_modify fun _ => rfl
  refine hdeeper.bind fun _ => still_get.bind fun s => ?_
  refine leads_ite (fun _ => leads_fatal_bind _ _ _) fun _ => Contract.bind h fun a => ?_
  have hback : Still (modify fun s => { s with depth := s.depth - 1 }) := still_modify fun _ => rfl
  exact hback.bind fun _ => leads_pure fun _ hm => hm

theorem passes_nested (h : Passes p) : Passes (nested p) := fun n b => leads_nested (h n b)

theorem keeps_manyWithin {p : Parser (Option α)} (h : Keeps n b p fun found => ∀ a ∈ found, good a)
    (steps : Nat) : Keeps n b (manyWithin p steps) fun as => ∀ a ∈ as, good a := by
  induction steps with
  | zero => exact leads_exhausted
  | succ steps ih =>
    refine h.bind ?_
    rintro (_ | a) ha
    · exact keeps_pure (List.forall_mem_nil _)
    · exact ih.bind fun as has => keeps_pure (List.forall_mem_cons.2 ⟨ha a rfl, has⟩)

theorem keeps_many {p : Parser (Option α)} (h : Keeps n b p fun found => ∀ a ∈ found, good a) :
    Keeps n b (many p) fun as => ∀ a ∈ as, good a :=
  still_get.bind fun _ => keeps_manyWithin h _

theorem keeps_separatedBy {separator : Rule} (h : Keeps n b p good) :
    Keeps n b (separatedBy separator p) fun as => ∀ a ∈ as, good a :=
  h.bind fun _ ha => (keeps_many (keeps_whenEats h)).bind fun _ has =>
    keeps_pure (List.forall_mem_cons.2 ⟨ha, has⟩)

theorem leads_iterate {step : σ → Parser (σ ⊕ α)} {inv : σ → Matcher → Prop}
    (h : ∀ a, Leads (inv a) (step a) fun next m => Sum.elim (inv · m) (post · m) next) (init : σ) :
    Leads (inv init) (iterate step init) post := by
  refine still_get.bind fun s => ?_
  induction s.steps generalizing init with
  | zero => exact leads_exhausted
  | succ steps ih =>
    refine Contract.bind (h init) ?_
    rintro (next | result)
    · exact ih next
    · exact leads_pure fun _ hm => hm

theorem keeps_iterate {step : σ → Parser (σ ⊕ α)} {fine : σ → Prop}
    (h : ∀ a, fine a → Keeps n b (step a) (Sum.elim fine good)) {init : σ} (hi : fine init) :
    Keeps n b (iterate step init) good := by
  have hstep (a : σ) : Leads (fun m => fine a ∧ m.Behind n b) (step a) fun next m =>
      Sum.elim (fun a => fine a ∧ m.Behind n b) (fun a => good a ∧ m.Behind n b) next := by
    intro s hs
    refine Contract.weaken (h a hs.1) (fun _ hs => hs) (fun next s hs => ?_) s hs.2
    cases next <;> exact hs
  exact fun s hs => leads_iterate hstep init s ⟨hi, hs⟩

theorem passes_manyWithin {p : Parser (Option α)} (h : Passes p) (steps : Nat) :
    Passes (manyWithin p steps) := by
  induction steps with
  | zero => exact fun _ _ => leads_exhausted
  | succ steps ih =>
    refine h.seq ?_
    rintro (_ | a)
    · exact passes_pure _
    · exact ih.seq fun _ => passes_pure _

theorem passes_many {p : Parser (Option α)} (h : Passes p) : Passes (many p) :=
  still_get.passes.seq fun _ => passes_manyWithin h _

theorem passes_separatedBy {separator : Rule} (h : Passes p) : Passes (separatedBy separator p) :=
  h.seq fun _ => (passes_many (passes_whenEats h)).seq fun _ => passes_pure _

theorem passes_iterate {step : σ → Parser (σ ⊕ α)} (h : ∀ a, Passes (step a)) (init : σ) :
    Passes (iterate step init) := by
  refine fun n b => leads_iterate (fun a => (h a n b).weaken fun next m hm => ?_) init
  cases next <;> exact hm

end Order

end XQuerySyntax
