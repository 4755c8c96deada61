import XQuerySyntax.Grammar.Parser
import XQuerySyntax.Proofs.Contract
import XQuerySyntax.Proofs.Order.Position
import XQuerySyntax.Terminals.Table

/-! Parsers come to an end. A parser does not go back in the text, and one that has found something has used
some text up. So a loop whose rounds find something is over before its steps are, and stops for no other
reason than the text it reads. -/

namespace XQuerySyntax

namespace Matcher

/-- At least `b` bytes of a text of `n` bytes have been read. -/
structure Past (n b : Nat) (m : Matcher) : Prop where
  size : m.cursor.size = n
  place : b + byteLength m.cursor.rest ≤ n

variable {n b b' : Nat} {m m' : Matcher}

theorem Past.mono (h : m.Past n b) (hb : b' ≤ b) : m.Past n b' :=
  ⟨h.size, Nat.le_trans (Nat.add_le_add_right hb _) h.place⟩

theorem Past.of_suffix (h : m.Past n b) (hsize : m'.cursor.size = m.cursor.size)
    (hrest : m'.cursor.rest <:+ m.cursor.rest) : m'.Past n b := by
  have hle := byteLength_le_of_suffix hrest
  exact ⟨hsize.trans h.size, Nat.le_trans (Nat.add_le_add_left hle b) h.place⟩

end Matcher

namespace Scan

variable {α β : Type} {m m' : Matcher} {r : Rule}

/-! ### What a rule uses up -/

theorem byteLength_lt_of_consumes {text rest : List Char} (h : Consumes text rest) :
    byteLength rest < byteLength text := by
  obtain ⟨c, cs, rfl, -, hrest⟩ := h
  have hle := byteLength_le_of_suffix hrest
  have hpos := c.utf8Size_pos
  rw [byteLength_cons]
  omega

/-- A rule that begins with a visible character uses up a byte at least. -/
theorem byteLength_lt_of_eat (hr : r.isVisible = true) (h : eat r m = .ok true m') :
    byteLength m'.cursor.rest < byteLength m.cursor.rest := by
  obtain ⟨htoken, -, hconsumes⟩ := suffix_of_eat h
  exact Nat.lt_of_lt_of_le (byteLength_lt_of_consumes (hconsumes hr)) (byteLength_le_of_suffix htoken)

/-- Every rule of the table begins with a visible character. -/
theorem isVisible_of_mem_named : ∀ x ∈ Terminal.named, x.2.isVisible = true := by
  rw [Rule.isVisible_eq]
  decide +kernel

/-! ### What stops a match -/

/-- Whatever stops the step, it is no cycle of modules. -/
abbrev Plain (step : Scan α) : Prop :=
  Contract (fun _ => True) step (fun _ _ => True) fun d _ => d.code ≠ .cyclicImport

theorem plain_pure (a : α) : Plain (pure a : Scan α) := fun _ _ => trivial

theorem plain_bind {step : Scan α} {next : α → Scan β} (h : Plain step) (hn : ∀ a, Plain (next a)) :
    Plain (step >>= next) := Contract.bind h hn

theorem plain_map {step : Scan α} (f : α → β) (h : Plain step) : Plain (f <$> step) := Contract.map f h

theorem plain_ite {c : Prop} [Decidable c] {yes no : Scan α} (hy : Plain yes) (hn : Plain no) :
    Plain (if c then yes else no) := Contract.ite (fun _ => hy) fun _ => hn

theorem plain_fault (fault : LexicalFault) (offset : Nat) : (fault.diagnostic offset).code ≠ .cyclicImport := by
  unfold LexicalFault.diagnostic
  by_cases h : fault = .illegalCharacter
  · rw [if_pos h]
    exact (by decide : ErrorCode.invalidCharacterReference ≠ .cyclicImport)
  · rw [if_neg h]
    exact (by decide : ErrorCode.malformed ≠ .cyclicImport)

theorem plain_lexeme (scanner : List Char → Scanned α) : Plain (lexeme scanner) := by
  intro m _
  unfold lexeme
  split
  · trivial
  · trivial
  · exact plain_fault _ _

theorem plain_skipTrivia : Plain skipTrivia := fun m => plain_map _ (plain_lexeme _) m

theorem plain_char (c : Char) : Plain (char c) := by
  intro m _
  unfold char
  split <;> trivial

theorem plain_keep (capture : Option Capture) : Plain (keep capture) := by
  intro m _
  cases capture <;> trivial

theorem plain_number : Plain number := by
  intro m _
  have hnumeral := plain_lexeme scanNumeral m trivial
  unfold number
  split <;> rename_i hs <;> rw [hs] at hnumeral
  · split
    · trivial
    · exact (by decide : ErrorCode.implementationLimit ≠ .cyclicImport)
  · trivial
  · exact hnumeral

theorem plain_placeholder (kind : Placeholder) : Plain (placeholder kind) := by
  cases kind with
  | name => exact plain_bind (plain_lexeme _) fun _ => plain_keep _
  | qualifiedName => exact plain_bind (plain_lexeme _) fun _ => plain_keep _
  | string => exact plain_bind (plain_lexeme _) fun _ => plain_keep _
  | number => exact plain_bind plain_number fun _ => plain_keep _

theorem plain_items (parts : List PatternItem) (afterWord : Bool) (anchor : Option (List Char)) :
    Plain (items parts afterWord anchor) := by
  have hnone : Plain (pure none : Scan (Option (List Char))) := plain_pure none
  have hremaining : Plain remaining := fun _ _ => trivial
  induction parts generalizing afterWord anchor with
  | nil => exact plain_bind hremaining fun _ => plain_pure _
  | cons part rest ih =>
    cases part with
    | anchor => exact plain_bind hremaining fun _ => ih afterWord _
    | gap =>
      have hseparated : Plain separated := fun _ _ => trivial
      exact plain_bind hseparated fun _ => plain_bind plain_skipTrivia fun _ => plain_ite hnone (ih afterWord anchor)
    | capture kind => exact plain_bind (plain_placeholder kind) fun _ => plain_ite (ih _ anchor) hnone
    | percent => exact plain_bind (plain_char '%') fun _ => plain_ite (ih false anchor) hnone
    | never => exact hnone
    | char c =>
      have hends : Plain wordEnds := fun _ _ => trivial
      refine plain_bind (plain_char c) fun _ => plain_ite (plain_ite ?_ (ih _ anchor)) hnone
      exact plain_bind hends fun _ => plain_ite (ih true anchor) hnone

theorem plain_pattern (parts : List PatternItem) : Plain (pattern parts) := by
  intro m _
  have hskip : Plain (if m.state.skipsBlanks then skipTrivia else pure () : Scan Unit) :=
    plain_ite plain_skipTrivia (plain_pure ())
  unfold pattern
  dsimp only
  split <;> rename_i hs
  · exact hskip.of_error trivial hs
  · split <;> rename_i hitems
    · trivial
    · trivial
    · exact (plain_items parts false none).of_error trivial hitems

theorem plain_eat (r : Rule) : Plain (eat r) := by
  intro m _
  have hpattern := plain_pattern r.items m trivial
  unfold eat
  split
  · split
    · trivial
    · exact hpattern
  · trivial

theorem plain_peek (r : Rule) : Plain (peek r) := by
  intro m _
  unfold peek
  split
  · split <;> rename_i hs
    · trivial
    · exact (plain_pattern r.items).of_error trivial hs
  · trivial

theorem plain_atEnd : Plain atEnd := by
  intro m _
  unfold atEnd
  split <;> rename_i hs
  · trivial
  · exact (plain_lexeme (scanTrivia true)).of_error trivial hs

end Scan

/-- A stop at an error in the text of the module: loops that use up their steps, and modules that import
themselves, are none. -/
def Stop.Ordinary : Stop → Prop
  | .fatal d => d.code ≠ .cyclicImport
  | .exhausted => False

namespace Progress

open XQuerySyntax.Parser

variable {α β σ : Type} {n b c c' : Nat} {pre : Matcher → Prop} {p : Parser α} {next : α → Parser β}
  {post : α → Matcher → Prop} {used : α → Bool} {used' : β → Bool} {r : Rule}

/-- From a matcher of one kind the parser comes to a matcher that fits its answer, or to an error in the
text. -/
abbrev Goes (pre : Matcher → Prop) (p : Parser α) (post : α → Matcher → Prop) : Prop :=
  Contract (fun s => pre s.scan) p (fun a s => post a s.scan) fun stop _ => stop.Ordinary

/-- The matcher stays as it is. -/
def Still (p : Parser α) : Prop := ∀ pre : Matcher → Prop, Goes pre p fun _ => pre

/-- Where `c` bytes of a text of `n` bytes have been read, or more, the parser does not go back, and it uses
some text up if its answer is one of those. -/
def Uses (n c : Nat) (used : α → Bool) (p : Parser α) : Prop :=
  ∀ b, c ≤ b → Goes (Matcher.Past n b) p fun a => Matcher.Past n (b + (used a).toNat)

/-- The parser does not go back. -/
abbrev Stays (n c : Nat) (p : Parser α) : Prop := Uses n c (fun _ => false) p

/-- The parser uses some text up. -/
abbrev Gains (n c : Nat) (p : Parser α) : Prop := Uses n c (fun _ => true) p

/-- The parser uses some text up if it finds something. -/
abbrev Finds (n c : Nat) (p : Parser (Option α)) : Prop := Uses n c Option.isSome p

/-- A round of a loop uses some text up unless the loop ends with it. -/
abbrev Rounds (n c : Nat) (p : Parser (σ ⊕ α)) : Prop := Uses n c Sum.isLeft p

/-! ### Composition -/

theorem Still.stays (h : Still p) : Stays n c p := fun _ _ => h _

theorem still_pure (a : α) : Still (pure a : Parser α) := fun _ _ hs => hs

theorem Still.seq (h : Still p) (hn : ∀ a, Still (next a)) : Still (p >>= next) :=
  fun pre => Contract.bind (h pre) fun a => hn a pre

theorem still_ite {q : Prop} [Decidable q] {no : Parser α} (hy : Still p) (hn : Still no) :
    Still (if q then p else no) := fun pre => Contract.ite (fun _ => hy pre) fun _ => hn pre

/-- The rule for an answer behind which nothing has to be used up. -/
theorem uses_pure {a : α} (h : used a = false) : Uses n c used (pure a) := by
  intro b _ s hs
  change s.scan.Past n (b + (used a).toNat)
  rwa [h]

theorem stays_pure (a : α) : Stays n c (pure a : Parser α) := uses_pure rfl

theorem finds_none : Finds n c (pure none : Parser (Option α)) := uses_pure rfl

theorem rounds_end (a : α) : Rounds n c (pure (.inr a) : Parser (σ ⊕ α)) := uses_pure rfl

theorem Uses.mono (h : Uses n c used p) (hc : c ≤ c') : Uses n c' used p := fun b hb => h b (Nat.le_trans hc hb)

/-- Further on in the text it is as before. -/
theorem Uses.up (h : Uses n c used p) : Uses n (c + 1) used p := h.mono (Nat.le_succ c)

theorem Uses.stays (h : Uses n c used p) : Stays n c p :=
  fun b hb => Contract.weaken (h b hb) (fun _ hs => hs) fun _ _ hs => hs.mono (Nat.le_add_right b _)

theorem Uses.seq (h : Uses n c used p) (hn : ∀ a, Uses n c used' (next a)) : Uses n c used' (p >>= next) :=
  fun b hb => Contract.bind (h.stays b hb) fun a => hn a b hb

/-- What is further on by a byte has used up enough for every answer. -/
theorem Stays.uses (h : Stays n (c + 1) p) (hb : c ≤ b) :
    Goes (Matcher.Past n (b + 1)) p fun a => Matcher.Past n (b + (used a).toNat) :=
  Contract.weaken (h (b + 1) (Nat.succ_le_succ hb)) (fun _ hs => hs) fun a _ hs =>
    hs.mono (Nat.add_le_add_left (Bool.toNat_le (used a)) b)

/-- Behind what uses some text up the rest is further on. -/
theorem Gains.seq (h : Gains n c p) (hn : ∀ a, Stays n (c + 1) (next a)) : Uses n c used' (p >>= next) :=
  fun b hb => Contract.bind (h b hb) fun a => (hn a).uses hb

/-- If nothing is found the parser goes on from where it is, and else from further on. -/
theorem Finds.seq {p : Parser (Option α)} {next : Option α → Parser β} (h : Finds n c p)
    (hnone : Uses n c used' (next none)) (hsome : ∀ a, Stays n (c + 1) (next (some a))) :
    Uses n c used' (p >>= next) := by
  refine fun b hb => Contract.bind (h b hb) ?_
  rintro (_ | a)
  · exact hnone b hb
  · exact (hsome a).uses hb

theorem uses_ite {q : Prop} [Decidable q] {no : Parser α} (hy : Uses n c used p) (hn : Uses n c used no) :
    Uses n c used (if q then p else no) := fun b hb => Contract.ite (fun _ => hy b hb) fun _ => hn b hb

theorem stays_map (φ : α → β) (h : Stays n c p) : Stays n c (φ <$> p) := fun b hb => Contract.map φ (h b hb)

theorem Gains.some (h : Gains n c p) : Finds n c (do return some (← p)) := h.seq fun _ => stays_pure _

/-! ### Steps that leave the matcher as it is -/

theorem still_get : Still (get : Parser ParserState) := fun _ _ hs => hs

theorem still_observe (φ : Matcher → α) {there : Matcher → Bool} : Still (observe φ there) :=
  fun _ _ hs => hs

theorem still_consult (φ : StaticContext → α) : Still (consult φ) := still_get.seq fun _ => still_pure _

theorem still_modify {φ : ParserState → ParserState} (h : ∀ s, (φ s).scan = s.scan) : Still (modify φ) := by
  intro pre s hs
  change pre (φ s).scan
  rwa [h]

theorem still_modifyGet {φ : ParserState → α × ParserState} (h : ∀ s, (φ s).2.scan = s.scan) :
    Still (modifyGet φ) := by
  intro pre s hs
  change pre (φ s).2.scan
  rwa [h]

theorem still_amend (φ : StaticContext → StaticContext) : Still (amend φ) := still_modify fun _ => rfl

theorem still_amendGet (φ : StaticContext → α × StaticContext) : Still (amendGet φ) :=
  still_modifyGet fun _ => rfl

theorem still_note (d : Diagnostic) : Still (note d) := still_modify fun _ => rfl

theorem still_record (code : ErrorCode) (offset : Nat) (message : String) : Still (record code offset message) :=
  still_note _

theorem still_node (kind : ExprKind Expr) (offset : Nat) : Still (node kind offset) :=
  still_get.seq fun _ => still_pure _

theorem still_forIn {body : α → Parser PUnit} (h : ∀ x, Still (body x)) (xs : List α) :
    Still (forIn xs PUnit.unit fun x _ => do
      body x
      return ForInStep.yield PUnit.unit) := fun pre => Contract.forIn (fun x => h x pre) xs

theorem stays_observe (φ : Matcher → α) {there : Matcher → Bool} : Stays n c (observe φ there) :=
  (still_observe φ).stays

theorem stays_consult (φ : StaticContext → α) : Stays n c (consult φ) := (still_consult φ).stays

theorem stays_amend (φ : StaticContext → StaticContext) : Stays n c (amend φ) := (still_amend φ).stays

theorem stays_amendGet (φ : StaticContext → α × StaticContext) : Stays n c (amendGet φ) :=
  (still_amendGet φ).stays

theorem stays_record (code : ErrorCode) (offset : Nat) (message : String) :
    Stays n c (record code offset message) := (still_record code offset message).stays

theorem stays_node (kind : ExprKind Expr) (offset : Nat) : Stays n c (node kind offset) :=
  (still_node kind offset).stays

/-! ### Stops -/

theorem goes_fatal {code : ErrorCode} (hcode : code ≠ .cyclicImport) (offset : Nat) (message : String) :
    Goes pre (fatal code offset message) post := fun _ _ => hcode

theorem goes_unexpected (expected : String) : Goes pre (unexpected expected) post :=
  Contract.bind (still_observe id pre) fun _ => goes_fatal (by decide) _ _

theorem uses_fatal {code : ErrorCode} (hcode : code ≠ .cyclicImport) (offset : Nat) (message : String) :
    Uses n c used (fatal code offset message) := fun _ _ => goes_fatal hcode offset message

theorem uses_unexpected (expected : String) : Uses n c used (unexpected expected) :=
  fun _ _ => goes_unexpected expected

theorem stays_fatal {code : ErrorCode} (hcode : code ≠ .cyclicImport) (offset : Nat) (message : String) :
    Stays n c (fatal code offset message : Parser α) := uses_fatal hcode offset message

theorem stays_unexpected (expected : String) : Stays n c (unexpected expected : Parser α) :=
  uses_unexpected expected

/-! ### Steps of the matcher -/

theorem goes_scan {step : Scan α} (hplain : Scan.Plain step)
    (h : ∀ m a m', pre m → step m = .ok a m' → post a m') : Goes pre (scan step) post := by
  intro s hs
  unfold scan
  cases hr : step s.scan with
  | ok a m => exact h s.scan a m hs hr
  | error d m => exact hplain.of_error trivial hr

theorem past_of_eat {m m' : Matcher} {matched : Bool} (hm : m.Past n b) (h : Scan.eat r m = .ok matched m') :
    m'.Past n b := by
  refine hm.of_suffix (Scan.settings_eat h).size ?_
  cases matched with
  | true =>
    obtain ⟨htoken, hrest, -⟩ := Scan.suffix_of_eat h
    exact hrest.trans htoken
  | false => exact congrArg Cursor.rest (Scan.samePlace_of_eat h).cursor ▸ List.suffix_rfl

theorem stays_eat (r : Rule) : Stays n c (eat r) :=
  fun _ _ => goes_scan (Scan.plain_eat r) fun _ _ _ hm h => past_of_eat hm h

/-- A rule that matches uses some text up. -/
theorem uses_eat (hr : r.isVisible = true) : Uses n c id (eat r) := by
  refine fun b _ => goes_scan (Scan.plain_eat r) fun m matched m' hm h => ?_
  have hpast := past_of_eat hm h
  cases matched with
  | false => exact hpast
  | true =>
    have hlt := Scan.byteLength_lt_of_eat hr h
    have hplace := hm.place
    refine ⟨hpast.size, ?_⟩
    change b + 1 + byteLength m'.cursor.rest ≤ n
    omega

theorem stays_peek (r : Rule) : Stays n c (peek r) := by
  refine fun b _ => goes_scan (Scan.plain_peek r) fun m found m' hm h => ?_
  obtain ⟨-, token, captures, hstate⟩ := Scan.peek_cases r m
  rw [h] at hstate
  obtain rfl : m' = { m with token, captures } := hstate
  exact ⟨hm.size, hm.place⟩

theorem stays_lexeme {scanner : List Char → Scanned α} (h : ∀ text, (scanner text).Within text) :
    Stays n c (lexeme scanner) := by
  refine fun b _ => goes_scan (Scan.plain_lexeme scanner) fun m found m' hm hr => ?_
  have hwithin := h m.cursor.rest
  unfold Scan.lexeme at hr
  split at hr <;> rename_i hs <;> cases hr
  · rw [hs] at hwithin
    exact hm.of_suffix rfl hwithin
  · exact hm

/-- A scanner that finds no empty lexeme. -/
theorem finds_lexeme {scanner : List Char → Scanned α} (h : ∀ text, (scanner text).Within text)
    (hne : ∀ {text value rest}, scanner text = .found value rest → rest.length ≠ text.length) :
    Finds n c (lexeme scanner) := by
  refine fun b _ => goes_scan (Scan.plain_lexeme scanner) fun m found m' hm hr => ?_
  have hwithin := h m.cursor.rest
  unfold Scan.lexeme at hr
  split at hr <;> rename_i value rest hs <;> cases hr
  · rw [hs] at hwithin
    obtain ⟨front, hfront⟩ := hwithin
    have hlength := hne hs
    have hplace := hm.place
    rw [← hfront] at hlength hplace
    rw [byteLength_append] at hplace
    cases front with
    | nil => exact absurd rfl hlength
    | cons c cs =>
      have hpos := c.utf8Size_pos
      rw [byteLength_cons] at hplace
      refine ⟨hm.size, ?_⟩
      change b + 1 + byteLength rest ≤ n
      omega
  · exact hm

theorem stays_atEnd : Stays n c atEnd := by
  refine fun b _ => goes_scan Scan.plain_atEnd fun m ended m' hm hr => ?_
  have hsize := (Scan.settings_atEnd hr).size
  unfold Scan.atEnd at hr
  split at hr <;> cases hr
  exact hm.of_suffix hsize List.suffix_rfl

theorem stays_goto (state : LexicalState) : Stays n c (goto state) := fun _ _ _ hs => ⟨hs.size, hs.place⟩

/-- From further on the parser may come back to where it is now. -/
theorem goes_mark_bind {next : Matcher.Mark → Parser β} {post : β → Matcher → Prop}
    (h : ∀ place, b + byteLength place.rest ≤ n → Goes (Matcher.Past n b) (next place) post) :
    Goes (Matcher.Past n b) (mark >>= next) post := fun s hs => h _ hs.place s hs

theorem goes_restore {b' : Nat} {place : Matcher.Mark} (h : b + byteLength place.rest ≤ n) :
    Goes (Matcher.Past n b') (restore place) fun _ => Matcher.Past n b := fun _ hs => ⟨hs.size, h⟩

theorem stays_expect (r : Rule) : Stays n c (expect r) :=
  (stays_eat r).seq fun _ => uses_ite (uses_unexpected _) (stays_pure ())

theorem gains_expect (hr : r.isVisible = true) : Gains n c (expect r) := by
  refine fun b hb => Contract.bind (uses_eat hr b hb) fun matched => ?_
  cases matched with
  | true => exact fun _ hs => hs
  | false => exact goes_unexpected _

theorem stays_expectEnd : Stays n c expectEnd :=
  stays_atEnd.seq fun _ => uses_ite (uses_unexpected _) (stays_pure ())

theorem stays_ifEat {yes no : Parser α} (hy : Stays n c yes) (hn : Stays n c no) :
    Stays n c (eat r >>= fun matched => if matched then yes else no) :=
  (stays_eat r).seq fun _ => uses_ite hy hn

/-- Behind the match of a rule the parser is further on. -/
theorem uses_ifEat {yes no : Parser α} (hr : r.isVisible = true) (hy : Stays n (c + 1) yes)
    (hn : Uses n c used no) : Uses n c used (eat r >>= fun matched => if matched then yes else no) := by
  refine fun b hb => Contract.bind (uses_eat hr b hb) fun matched => ?_
  cases matched with
  | false => exact hn b hb
  | true => exact hy.uses hb

theorem uses_ifPeek {yes no : Parser α} (hy : Uses n c used yes) (hn : Uses n c used no) :
    Uses n c used (peek r >>= fun matched => if matched then yes else no) :=
  (stays_peek r).seq fun _ => uses_ite hy hn

theorem finds_eatFirst {table : List (Rule × α)} (h : ∀ x ∈ table, x.1.isVisible = true) :
    Finds n c (eatFirst table) := by
  induction table with
  | nil => exact finds_none
  | cons entry rest ih =>
    obtain ⟨hentry, hrest⟩ := List.forall_mem_cons.1 h
    exact uses_ifEat hentry (stays_pure _) (ih hrest)

theorem stays_eatFirst (table : List (Rule × α)) : Stays n c (eatFirst table) := by
  induction table with
  | nil => exact stays_pure _
  | cons entry rest ih => exact stays_ifEat (stays_pure _) ih

theorem uses_ifEatFirst {table : List (Rule × Unit)} {yes no : Parser α}
    (h : ∀ x ∈ table, x.1.isVisible = true) (hy : Stays n (c + 1) yes) (hn : Uses n c used no) :
    Uses n c used (eatFirst table >>= fun found => if found.isSome then yes else no) :=
  (finds_eatFirst h).seq hn fun _ => hy

theorem finds_whenEats (hr : r.isVisible = true) (h : Stays n (c + 1) p) : Finds n c (whenEats r p) :=
  uses_ifEat hr (h.seq fun _ => stays_pure _) finds_none

theorem stays_whenEats (h : Stays n c p) : Stays n c (whenEats r p) :=
  stays_ifEat (h.seq fun _ => stays_pure _) (stays_pure _)

/-! ### Nesting and loops -/

theorem goes_nested (h : Goes pre p post) : Goes pre (nested p) post := by
  have hdeeper : Still (modify fun s => { s with depth := s.depth + 1 }) := still_modify fun _ => rfl
  have hback : Still (modify fun s => { s with depth := s.depth - 1 }) := still_modify fun _ => rfl
  refine Contract.bind (hdeeper pre) fun _ => Contract.bind (still_get pre) fun s => ?_
  have hrest : Goes pre (do
      let a ← p
      modify fun s => { s with depth := s.depth - 1 }
      return a) post := Contract.bind h fun a => Contract.bind (hback (post a)) fun _ _ hs => hs
  refine Contract.ite (fun _ => ?_) fun _ => hrest
  have hstop : Goes pre (fatal .implementationLimit s.scan.nextOffset
      ("expression nesting exceeds " ++ toString s.maxDepth ++ " levels") : Parser PUnit) fun _ => pre :=
    goes_fatal (by decide) _ _
  exact Contract.bind hstop fun _ => hrest

theorem uses_nested (h : Uses n c used p) : Uses n c used (nested p) := fun b hb => goes_nested (h b hb)

/-- A loop whose rounds find something is over before its steps are: each of them uses up a byte. -/
theorem goes_manyWithin {p : Parser (Option α)} (h : Finds n c p) {steps b : Nat} (hb : c ≤ b)
    (hsteps : n < b + steps) :
    Goes (Matcher.Past n b) (manyWithin p steps) fun found => Matcher.Past n (b + (!found.isEmpty).toNat) := by
  induction steps generalizing b with
  | zero =>
    intro s hs
    have hplace := hs.place
    omega
  | succ steps ih =>
    refine Contract.bind (h b hb) ?_
    rintro (_ | a)
    · exact fun _ hs => hs
    · have hrest := ih (Nat.le_succ_of_le hb) (by omega : n < b + 1 + steps)
      refine Contract.bind hrest fun found s hs => ?_
      exact hs.mono (Nat.le_add_right (b + 1) _)

theorem uses_many {p : Parser (Option α)} (h : Finds n c p) :
    Uses n c (fun found => !found.isEmpty) (many p) := by
  intro b hb s hs
  have hsteps : s.steps = n + 1 := congrArg (· + 1) hs.size
  change Ends _ _ (manyWithin p s.steps s)
  rw [hsteps]
  exact goes_manyWithin h hb (by omega) s hs

theorem stays_many {p : Parser (Option α)} (h : Finds n c p) : Stays n c (many p) := (uses_many h).stays

theorem stays_separatedBy {separator : Rule} (hr : separator.isVisible = true) (h : Stays n c p) :
    Stays n c (separatedBy separator p) :=
  h.seq fun _ => (stays_many (finds_whenEats hr h.up)).seq fun _ => stays_pure _

theorem goes_iterateWithin {step : σ → Parser (σ ⊕ α)} (h : ∀ a, Rounds n c (step a)) {steps b : Nat} (hb : c ≤ b)
    (hsteps : n < b + steps) (a : σ) :
    Goes (Matcher.Past n b) (iterateWithin step steps a) fun _ => Matcher.Past n b := by
  induction steps generalizing b a with
  | zero =>
    intro s hs
    have hplace := hs.place
    omega
  | succ steps ih =>
    refine Contract.bind (h a b hb) ?_
    rintro (next | result)
    · have hrest := ih (Nat.le_succ_of_le hb) (by omega : n < b + 1 + steps) next
      exact Contract.weaken hrest (fun _ hs => hs) fun _ _ hs => hs.mono (Nat.le_succ b)
    · exact fun _ hs => hs

theorem stays_iterate {step : σ → Parser (σ ⊕ α)} (h : ∀ a, Rounds n c (step a)) (init : σ) :
    Stays n c (iterate step init) := by
  intro b hb s hs
  have hsteps : s.steps = n + 1 := congrArg (· + 1) hs.size
  change Ends _ _ (iterateWithin step s.steps init s)
  rw [hsteps]
  exact goes_iterateWithin h hb (by omega) init s hs

/-- Where more has been read than the text has, no parser can begin. -/
theorem uses_of_lt (h : n < c) : Uses n c used p := by
  intro b hb s hs
  have hplace := hs.place
  omega

/-- From as many steps as the text allows for. -/
theorem uses_steps {within : Nat → Parser α} (h : ∀ steps, n < c + steps → Uses n c used (within steps)) :
    Uses n c used (do within (← get).steps) := by
  intro b hb s hs
  have hsteps : s.steps = n + 1 := congrArg (· + 1) hs.size
  change Ends _ _ (within s.steps s)
  rw [hsteps]
  exact h (n + 1) (by omega) b hb s hs

end Progress

end XQuerySyntax
