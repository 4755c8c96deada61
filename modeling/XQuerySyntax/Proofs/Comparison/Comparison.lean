import Mathlib.Data.List.Forall2
import XQuerySyntax.Grammar.Module
import XQuerySyntax.Proofs.Boundary
import XQuerySyntax.Proofs.Comparison.Moved
import XQuerySyntax.Proofs.LexicalState.Course
import XQuerySyntax.Proofs.Static.Agrees
import XQuerySyntax.Proofs.Tree.Contents

/-! Comparing two runs of the parser. The runs stand at corresponding places of two texts, which may be
the same, and their settings may differ. A comparison says how offsets correspond, which extension one
of the runs may lack, and what the matchers of the two runs have in common; its laws say that scanning
keeps this. What the grammar makes of it is the same for all comparisons. -/

/-! ### Extensions in trees

What of a tree belongs to which extension: the forms of expressions and of declarations, and what functions
may do. A tree uses an extension if one of its nodes belongs to it, at whatever depth. -/

namespace XQuerySyntax

variable {ε : Type}

/-- Whether a clause has a variable for a full-text score. -/
def Clause.hasScore : Clause ε → Bool
  | .forEach bindings => bindings.any fun b => b.score.isSome
  | .letBe bindings => bindings.any fun b => b.score
  | _ => false

/-- The extension that a form belongs to, those of nested nodes apart. -/
def ExprKind.belongsTo : ExprKind ε → Extension
  | .ftContains .. => .fullText
  | .flwor query =>
    if (query.clauses ++ query.postGroup).any Clause.hasScore then .fullText else .core
  | .insert .. | .delete _ | .replace .. | .rename .. | .transform .. => .update
  | .block .. | .assign .. | .whileLoop .. | .exit _ | .breakLoop | .continueLoop => .scripting
  | _ => .core

/-- The extension that lets a function do what it may do. -/
def FunctionKind.belongsTo : FunctionKind → Extension
  | .simple => .core
  | .updating => .update
  | .sequential => .scripting

/-- The extension that a declaration belongs to, its expressions apart. -/
def DeclarationKind.belongsTo : DeclarationKind → Extension
  | .ftOption _ => .fullText
  | .revalidation _ => .update
  | .functionDecl d => d.kind.belongsTo
  | _ => .core

/-- Whether a node of the tree belongs to an extension. -/
def Expr.Uses (x : Extension) (e : Expr) : Prop := ∃ n ∈ e.nodes, n.kind.belongsTo = x

/-- Whether a declaration of the module or a node of its expressions belongs to an extension. -/
def Module.Uses (x : Extension) (m : Module) : Prop :=
  (∃ d ∈ m.declared, d.belongsTo = x) ∨ ∃ n ∈ m.nodes, n.kind.belongsTo = x

variable {x : Extension}

instance {e : Expr} : Decidable (e.Uses x) :=
  inferInstanceAs (Decidable (∃ n ∈ e.nodes, n.kind.belongsTo = x))

instance {m : Module} : Decidable (m.Uses x) :=
  inferInstanceAs (Decidable ((∃ d ∈ m.declared, d.belongsTo = x) ∨ ∃ n ∈ m.nodes, n.kind.belongsTo = x))

/-- A tree uses an extension in its root or below. -/
theorem Expr.uses_mk {kind : ExprKind Expr} {offset : Nat} {module : ModuleId} :
    (Expr.mk kind offset module).Uses x ↔ kind.belongsTo = x ∨ ∃ c ∈ kind.children, c.Uses x := by
  constructor
  · rintro ⟨n, hn, hx⟩
    rcases mem_nodes.1 hn with rfl | ⟨c, hc, hn⟩
    · exact .inl hx
    · exact .inr ⟨c, hc, n, hn, hx⟩
  · rintro (hx | ⟨c, hc, n, hn, hx⟩)
    · exact ⟨_, mem_nodes.2 (.inl rfl), hx⟩
    · exact ⟨n, mem_nodes.2 (.inr ⟨c, hc, hn⟩), hx⟩

/-- A module uses an extension in a declaration, in an expression of one, or in its body. -/
theorem Module.uses_iff {m : Module} :
    m.Uses x ↔ (∃ d ∈ m.declared, d.belongsTo = x ∨ ∃ e ∈ d.exprs, e.Uses x) ∨
      ∃ e ∈ m.body?, e.Uses x := by
  have hnodes : (∃ n ∈ m.nodes, n.kind.belongsTo = x) ↔ ∃ e ∈ m.exprs, e.Uses x := by
    simp only [Module.nodes, List.mem_flatMap, Expr.Uses]
    constructor
    · rintro ⟨n, ⟨e, he, hn⟩, hx⟩
      exact ⟨e, he, n, hn, hx⟩
    · rintro ⟨e, he, n, hn, hx⟩
      exact ⟨n, ⟨e, he, hn⟩, hx⟩
  have hexprs : (∃ e ∈ m.exprs, e.Uses x) ↔
      (∃ d ∈ m.declared, ∃ e ∈ d.exprs, e.Uses x) ∨ ∃ e ∈ m.body?, e.Uses x := by
    simp only [Module.exprs, List.mem_append, List.mem_flatMap, Option.mem_toList]
    constructor
    · rintro ⟨e, ⟨d, hd, he⟩ | he, hx⟩
      · exact .inl ⟨d, hd, e, he, hx⟩
      · exact .inr ⟨e, he, hx⟩
    · rintro (⟨d, hd, e, he, hx⟩ | ⟨e, he, hx⟩)
      · exact ⟨e, .inl ⟨d, hd, he⟩, hx⟩
      · exact ⟨e, .inr he, hx⟩
  rw [Module.Uses, hnodes, hexprs, ← or_assoc]
  refine or_congr_left ?_
  simp only [and_or_left, exists_or]

end XQuerySyntax

/-! ### Comparisons -/

namespace XQuerySyntax

/-- How far two runs are known to stand at the same place. -/
inductive Stage where
  /-- Perhaps before the first token, and perhaps with different last tokens. -/
  | anywhere
  /-- With the same last token. -/
  | glimpsed
  /-- With the same last token, and the same text behind the position. -/
  | behind

/-- What is known behind a test that has matched. -/
def Stage.seen : Stage → Stage
  | .anywhere => .glimpsed
  | t => t

/-- The second of two scanning steps does what the first one does. If the first one stops, the second
one has to stop only in a strict comparison. -/
def Scan.Follows {α : Type} (strict : Prop) (post : α → Matcher → Matcher → Prop) :
    EStateM.Result Diagnostic Matcher α → EStateM.Result Diagnostic Matcher α → Prop
  | .ok a m, r => ∃ m', r = .ok a m' ∧ post a m m'
  | .error d _, r => strict → ∃ m', r = .error d m'

/-- Matchers in front of the same text, at the same offset. -/
structure Matcher.Abreast (m m' : Matcher) : Prop where
  size : m'.cursor.size = m.cursor.size
  rest : m'.cursor.rest = m.cursor.rest

namespace Matcher.Abreast

variable {m m' : Matcher}

theorem refl (m : Matcher) : m.Abreast m := ⟨rfl, rfl⟩

theorem pos (h : m.Abreast m') : m'.cursor.pos = m.cursor.pos := by
  rw [Cursor.pos, Cursor.pos, Cursor.offsetOf, Cursor.offsetOf, h.size, h.rest]

theorem nextOffset (h : m.Abreast m') : m'.nextOffset = m.nextOffset := by
  rw [Matcher.nextOffset, Matcher.nextOffset, Cursor.offsetOf, Cursor.offsetOf, h.size, h.rest]

theorem excerpt (h : m.Abreast m') : m'.excerpt = m.excerpt := by
  rw [Matcher.excerpt, Matcher.excerpt, h.rest]

end Matcher.Abreast

/-- The rules for the words that say what a function may do. -/
def Terminal.functionKinds : List Rule := [declareUpdating, declareSequential, declareSimple]

/-- The rules behind which a word that says what a function may do can stand. -/
def Terminal.beforeFunctionKind : List Rule :=
  [declareWord, declareAnnotated, annotationName, annotationClose]

/-- Two runs of the parser, and what their matchers have in common. -/
structure Comparison where
  /-- Where an offset of the first run belongs. -/
  left : Nat → Nat
  /-- Where an offset of the second run belongs. -/
  right : Nat → Nat
  /-- The extension that the second run lacks; none if it is the plain language. -/
  dropped : Extension
  /-- The first run has this extension. -/
  on : Prop
  /-- If the first run stops, the second one stops with the same error. -/
  strict : Prop
  /-- The runs are always at the same place, and offsets are the same. -/
  still : Prop
  /-- The runs have the same static context and record the same diagnostics in the same order. -/
  exact : Prop := True
  /-- The nesting limit of the second run may be higher than that of the first. -/
  raised : Prop := False
  /-- What the first run has recorded before the runs are compared. -/
  earlier : List Diagnostic := []
  /-- What the second run has recorded before. -/
  earlier' : List Diagnostic := []
  /-- The nesting limit of the first run. -/
  limit : Nat
  /-- What the matchers have in common. -/
  Scans : Stage → Matcher → Matcher → Prop
  /-- Places where a word that says what a function may do can stand. -/
  Declaring : Matcher → Prop
  left_eq_right : on → left = right
  not_strict : on → ¬strict
  core_of_strict : strict → dropped = .core
  still_of_strict : exact → strict → still
  id_of_still : still → left = id ∧ right = id
  id_of_strict : strict → left = id ∧ right = id
  abreast_of_strict : ∀ {t m m'}, strict → Scans t m m' → m.Abreast m'
  scans_of_seen : ∀ {t : Stage} {m m'}, Scans t.seen m m' → Scans t m m'
  scans_of_behind : ∀ {t m m'}, Scans .behind m m' → Scans t m m'
  behind_of_still : ∀ {t m m'}, still → Scans t m m' → Scans .behind m m'
  follows_eat : ∀ {t m m'} {r : Rule}, ¬(dropped = r.extension ∧ r.extension ≠ .core) → Scans t m m' →
    Scan.Follows strict (fun matched m m' => if matched then
        Scans .behind m m' ∧ m'.captures = m.captures else Scans t m m')
      (Scan.eat r m) (Scan.eat r m')
  /-- A rule of the dropped extension does not match in the second run. -/
  eat_dropped : ∀ {t m m'} {r : Rule}, dropped = r.extension ∧ r.extension ≠ .core → Scans t m m' →
    ∃ m₁', Scan.eat r m' = .ok false m₁' ∧ ∀ matched m₁, Scan.eat r m = .ok matched m₁ →
      if matched then on else Scans t m₁ m₁'
  follows_peek : ∀ {t : Stage} {m m'} {r : Rule}, r.extension = .core → Scans t m m' →
    Scan.Follows strict (fun matched m m' => if matched then
        Scans t.seen m m' ∧ m'.captures = m.captures else Scans t m m')
      (Scan.peek r m) (Scan.peek r m')
  follows_lexeme : ∀ {α : Type} {m m'} {scanner : List Char → Scanned α},
    (∀ text, (scanner text).Within text) → Scans .behind m m' →
      Scan.Follows strict (fun _ => Scans .behind) (Scan.lexeme scanner m) (Scan.lexeme scanner m')
  follows_atEnd : ∀ {t m m'}, Scans t m m' →
    Scan.Follows strict (fun _ => Scans t) (Scan.atEnd m) (Scan.atEnd m')
  scans_goto : ∀ {t m m'} {state : LexicalState}, state.isMarkup = false → Scans t m m' →
    Scans t (m.goto state) (m'.goto state)
  scans_mark : ∀ {m m'}, Scans .behind m m' → m'.mark = m.mark ∧
    ∀ n n', Scans .behind n n' → Scans .behind (n.restore m.mark) (n'.restore m.mark)
  like_tokenStart : ∀ {m m'}, Scans .glimpsed m m' → left m.tokenStart = right m'.tokenStart
  like_nextOffset : ∀ {t m m'}, Scans t m m' → left m.nextOffset = right m'.nextOffset
  atEnd_eq : ∀ {m m'}, Scans .behind m m' → m'.cursor.atEnd = m.cursor.atEnd
  size_le : ∀ {t m m'}, Scans t m m' → m.cursor.size ≤ m'.cursor.size
  declaring_eat : ∀ {t m m' m₁} {r : Rule}, r ∈ Terminal.beforeFunctionKind → Scans t m m' →
    Scan.eat r m = .ok true m₁ → Declaring m₁
  declaring_of_samePlace : ∀ {m m₁}, Matcher.SamePlace m m₁ → Declaring m → Declaring m₁
  /-- A word of the dropped extension that says what a function may do stands in front of a function,
  and is not the one that says nothing. -/
  functionKind : ∀ {t m m' m₁} {r : Rule}, on → r ∈ Terminal.functionKinds →
    dropped = r.extension ∧ r.extension ≠ .core → Declaring m → Scans t m m' →
    Scan.eat r m = .ok true m₁ →
    r ≠ Terminal.declareSimple ∧ ∀ m₂, Scan.eat Terminal.declareVariable m₁ ≠ .ok true m₂

/-- The diagnostic of a parse that exceeds its nesting limit. -/
def Diagnostic.nesting (limit offset : Nat) : Diagnostic :=
  .error .implementationLimit offset ("expression nesting exceeds " ++ toString limit ++ " levels")

/-- The diagnostic at another place. -/
def Diagnostic.moved (f : Nat → Nat) (d : Diagnostic) : Diagnostic := { d with offset := f d.offset }

/-- An expression has been dropped from the tree: one in an attribute that binds a namespace. -/
def ParserState.Spoiled (s : ParserState) : Prop :=
  ∃ d ∈ s.recorded, d.code = .namespaceAttributeNotLiteral

namespace Comparison

/-- Runs that have the same static context and record the same. -/
class Exact (S : Comparison) : Prop where
  exact : S.exact

variable (S : Comparison) {α β σ : Type}

/-- What the static contexts of two runs have in common. -/
def Contexts (c c' : StaticContext) : Prop := c.Alike c' ∧ (S.exact → c' = c)

/-- What the diagnostics recorded by two runs have in common. Each has what the other one has recorded
before put to it. -/
def Records (ds ds' : List Diagnostic) : Prop :=
  (S.earlier' ++ ds.map (Diagnostic.moved S.left)).Perm (S.earlier ++ ds'.map (Diagnostic.moved S.right)) ∧
    (S.exact → ds.map (Diagnostic.moved S.left) = ds'.map (Diagnostic.moved S.right))

variable {S} in
theorem Contexts.of_eq {c c' : StaticContext} (h : c' = c) : S.Contexts c c' :=
  ⟨h ▸ .refl c, fun _ => h⟩

variable {S} in
theorem Contexts.eq [S.Exact] {c c' : StaticContext} (h : S.Contexts c c') : c' = c := h.2 Exact.exact

variable {S} in
theorem Records.refl_nil (h : S.earlier' = S.earlier) : S.Records [] [] := ⟨h ▸ .refl _, fun _ => rfl⟩

variable {S} in
/-- Two runs may record diagnostics that belong to the same place. -/
theorem Records.concat {ds ds' : List Diagnostic} {d d' : Diagnostic} (h : S.Records ds ds')
    (hd : d.moved S.left = d'.moved S.right) : S.Records (ds ++ [d]) (ds' ++ [d']) := by
  constructor
  · rw [List.map_append, List.map_append, List.map_singleton, List.map_singleton, hd,
      ← List.append_assoc, ← List.append_assoc]
    exact h.1.append_right _
  · intro hexact
    rw [List.map_append, List.map_append, List.map_singleton, List.map_singleton, hd, h.2 hexact]

variable {S} in
/-- If offsets are the same, the recorded diagnostics are the same. -/
theorem Records.eq_of_still [S.Exact] (hs : S.still) {ds ds' : List Diagnostic}
    (h : S.Records ds ds') : ds' = ds := by
  obtain ⟨hleft, hright⟩ := S.id_of_still hs
  have hrecorded := h.2 Exact.exact
  have hid : Diagnostic.moved id = id := rfl
  rw [hleft, hright, hid, List.map_id_fun] at hrecorded
  exact hrecorded.symm

/-- The dropped extension is this one. -/
def Drops (x : Extension) : Prop := S.dropped = x ∧ x ≠ .core

theorem core_kept : ¬S.Drops .core := fun h => h.2 rfl

@[simp]
theorem drops_core : S.Drops .core ↔ False := iff_false_intro S.core_kept

theorem drops_iff {x : Extension} : S.Drops x ↔ S.dropped ≠ .core ∧ x = S.dropped := by
  constructor
  · rintro ⟨rfl, hcore⟩
    exact ⟨hcore, rfl⟩
  · rintro ⟨hcore, rfl⟩
    exact ⟨rfl, hcore⟩

/-! ### What the answers of two runs have in common -/

/-- What the answers of two runs have in common, and which answers of the first run show that it has
used the dropped extension: these owe their existence to the extension. -/
@[ext]
structure Likeness (α : Type) where
  like : α → α → Prop
  owes : α → Prop
  refl : S.on → ∀ a, like a a

variable {S}

namespace Likeness

variable (L : S.Likeness α) (M : S.Likeness β)

/-- Answers that are the same, and to which the extension adds nothing. -/
def plain : S.Likeness α := ⟨Eq, fun _ => False, fun _ _ => rfl⟩

/-- Answers that are the same if the comparison is strict. -/
def strictly : S.Likeness α := ⟨fun a a' => S.strict → a' = a, fun _ => False, fun _ _ _ => rfl⟩

/-- Answers that become the same when their offsets go where they belong. -/
def moving (moved : (Nat → Nat) → α → β) (owes : α → Prop) : S.Likeness α where
  like a a' := moved S.left a = moved S.right a'
  owes := owes
  refl hon a := by rw [S.left_eq_right hon]

/-- Optional answers. -/
def option : S.Likeness (Option α) where
  like := Option.Rel L.like
  owes found := ∃ a ∈ found, L.owes a
  refl hon found := by
    cases found with
    | none => exact .none
    | some a => exact .some (L.refl hon a)

/-- Lists of answers. -/
def list : S.Likeness (List α) where
  like := List.Forall₂ L.like
  owes as := ∃ a ∈ as, L.owes a
  refl hon as := by
    induction as with
    | nil => exact .nil
    | cons a as ih => exact .cons (L.refl hon a) ih

/-- Pairs of answers. -/
def prod : S.Likeness (α × β) where
  like x y := L.like x.1 y.1 ∧ M.like x.2 y.2
  owes x := L.owes x.1 ∨ M.owes x.2
  refl hon x := ⟨L.refl hon x.1, M.refl hon x.2⟩

/-- Answers of two kinds. -/
def sum : S.Likeness (α ⊕ β) where
  like
    | .inl a, .inl a' => L.like a a'
    | .inr b, .inr b' => M.like b b'
    | _, _ => False
  owes := Sum.elim L.owes M.owes
  refl hon x := by
    cases x with
    | inl a => exact L.refl hon a
    | inr b => exact M.refl hon b

/-- Optional answers that are the same. -/
theorem option_plain : (plain : S.Likeness α).option = plain := by
  have hlike : Option.Rel (@Eq α) = Eq := by
    funext found found'
    refine propext ⟨?_, ?_⟩
    · rintro (⟨⟨⟩⟩ | _) <;> rfl
    · rintro rfl
      cases found with
      | none => exact .none
      | some a => exact .some rfl
  exact Likeness.ext hlike (by simp [option, plain])

/-- Lists of answers that are the same. -/
theorem list_plain : (plain : S.Likeness α).list = plain :=
  Likeness.ext List.forall₂_eq_eq_eq (by simp [list, plain])

/-- Answers that show nothing. -/
class Free (L : S.Likeness α) : Prop where
  not_owes (a : α) : ¬L.owes a

instance : (plain : S.Likeness α).Free := ⟨fun _ => id⟩

instance : (strictly : S.Likeness α).Free := ⟨fun _ => id⟩

instance [L.Free] : L.option.Free := ⟨fun _ ⟨a, _, ha⟩ => Free.not_owes a ha⟩

instance [L.Free] : L.list.Free := ⟨fun _ ⟨a, _, ha⟩ => Free.not_owes a ha⟩

instance [L.Free] [M.Free] : (L.prod M).Free :=
  ⟨fun x hx => hx.elim (Free.not_owes x.1) (Free.not_owes x.2)⟩

/-- Answers of which some show by themselves that the extension has been used. -/
def marked (mark : α → Prop) : S.Likeness α where
  like := L.like
  owes a := mark a ∨ L.owes a
  refl := L.refl

end Likeness

end Comparison

end XQuerySyntax
