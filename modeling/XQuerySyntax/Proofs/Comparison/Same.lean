import XQuerySyntax.Proofs.Comparison.Agree

/-! A run beside itself. Its two runs are the same but for their limits on nesting: the second limit may
be higher, or an extension counts that neither of them has switched on. -/

namespace XQuerySyntax

variable {α : Type} {x : Extension} {strict : Prop} {m m' : Matcher}

/-- Nothing can belong to the extension: it is the plain language, or it is switched off. -/
def Extensions.Lacks (e : Extensions) (x : Extension) : Prop := x = .core ∨ e.enables x = false

/-- Matchers of texts that are equally long, with the same extensions on. -/
structure Matcher.SameSettings (m m' : Matcher) : Prop where
  extensions : m'.extensions = m.extensions
  size : m'.cursor.size = m.cursor.size

namespace Scan

/-- A step follows itself. -/
theorem follows_refl {post : α → Matcher → Matcher → Prop} {r : EStateM.Result Diagnostic Matcher α}
    (h : ∀ a m, r = .ok a m → post a m m) : Follows strict post r r := by
  cases r with
  | ok a m => exact ⟨m, rfl, h a m rfl⟩
  | error d m => exact fun _ => ⟨m, rfl⟩

/-- A rule of an extension that is switched off does not match. -/
theorem eat_of_lacks {r : Rule} (h : m.extensions.enables r.extension = false) :
    eat r m = .ok false m := by
  have hadmits : m.admits r = false := by rw [Matcher.admits, h, Bool.and_false]
  rw [eat, hadmits]
  rfl

/-! ### Which text is read, and with which extensions, does not change -/

theorem settings_of_moves (h : m.Moves m') : m.SameSettings m' := by
  rw [show m' = _ from h]
  exact ⟨rfl, rfl⟩

theorem settings_lexeme (scanner : List Char → Scanned α) (m : Matcher) :
    m.SameSettings (lexeme scanner m).state := settings_of_moves (moves_lexeme scanner m)

theorem settings_eat {r : Rule} {matched : Bool} (h : eat r m = .ok matched m') : m.SameSettings m' := by
  obtain ⟨m₁, he, -, hp⟩ | ⟨m₁, he, captures, rfl⟩ | ⟨d, m₁, he, -⟩ := eat_cases r m <;> rw [he] at h <;>
    cases h
  · have hsettles := pattern_settles r.items m
    rw [hp] at hsettles
    obtain ⟨rest, token, captures, rfl⟩ := hsettles
    exact ⟨rfl, rfl⟩
  · exact ⟨rfl, rfl⟩

theorem settings_peek {r : Rule} {matched : Bool} (h : peek r m = .ok matched m') : m.SameSettings m' := by
  obtain ⟨-, token, captures, hstate⟩ := peek_cases r m
  rw [h] at hstate
  rw [show m' = _ from hstate]
  exact ⟨rfl, rfl⟩

theorem settings_atEnd {ended : Bool} (h : atEnd m = .ok ended m') : m.SameSettings m' := by
  have hl := settings_lexeme (scanTrivia true) m
  unfold atEnd at h
  split at h <;> rename_i hr <;> cases h
  rw [hr] at hl
  exact ⟨hl.extensions, hl.size⟩

end Scan

namespace Comparison

open Scan

/-- The same run twice. If both have to stop alike, the second limit on nesting may be higher; else an
extension that is switched off may count as the one that the second run lacks. -/
def same (x : Extension) (strict : Prop) (hx : strict → x = .core) (limit : Nat) : Comparison where
  left := id
  right := id
  dropped := x
  on := x = .core ∧ ¬strict
  strict := strict
  still := True
  limit := limit
  Scans _ m m' := m' = m ∧ m.extensions.Lacks x
  Declaring _ := True
  left_eq_right _ := rfl
  not_strict := And.right
  core_of_strict := hx
  still_of_strict _ _ := trivial
  id_of_still _ := ⟨rfl, rfl⟩
  id_of_strict _ := ⟨rfl, rfl⟩
  abreast_of_strict _ h := h.1 ▸ .refl _
  scans_of_seen := id
  scans_of_behind := id
  behind_of_still _ := id
  follows_eat := by
    rintro t _ m r - ⟨rfl, hl⟩
    refine follows_refl fun matched m₁ hr => ?_
    have hm₁ : m₁.extensions.Lacks x := (settings_eat hr).extensions ▸ hl
    cases matched with
    | true => exact ⟨⟨rfl, hm₁⟩, rfl⟩
    | false => exact ⟨rfl, hm₁⟩
  eat_dropped := by
    rintro t _ m r ⟨rfl, hcore⟩ ⟨rfl, hl⟩
    have heat : Scan.eat r m = .ok false m := eat_of_lacks (hl.resolve_left hcore)
    refine ⟨m, heat, fun matched m₁ hr => ?_⟩
    rw [heat] at hr
    cases hr
    exact ⟨rfl, hl⟩
  follows_peek := by
    rintro t _ m r - ⟨rfl, hl⟩
    refine follows_refl fun matched m₁ hr => ?_
    have hm₁ : m₁.extensions.Lacks x := (settings_peek hr).extensions ▸ hl
    cases matched with
    | true => exact ⟨⟨rfl, hm₁⟩, rfl⟩
    | false => exact ⟨rfl, hm₁⟩
  follows_lexeme := by
    rintro α _ m scanner - ⟨rfl, hl⟩
    refine follows_refl fun found m₁ hr => ⟨rfl, ?_⟩
    have hm := settings_lexeme scanner m
    rw [hr] at hm
    exact hm.extensions ▸ hl
  follows_atEnd := by
    rintro t _ m ⟨rfl, hl⟩
    exact follows_refl fun ended m₁ hr => ⟨rfl, (settings_atEnd hr).extensions ▸ hl⟩
  scans_goto := by
    rintro t _ m state - ⟨rfl, hl⟩
    exact ⟨rfl, hl⟩
  scans_mark := by
    rintro _ m ⟨rfl, -⟩
    refine ⟨rfl, ?_⟩
    rintro _ n ⟨rfl, hl⟩
    exact ⟨rfl, hl⟩
  like_tokenStart h := congrArg Matcher.tokenStart h.1.symm
  like_nextOffset h := congrArg Matcher.nextOffset h.1.symm
  atEnd_eq h := congrArg (fun m : Matcher => m.cursor.atEnd) h.1
  size_le h := Nat.le_of_eq (congrArg (fun m : Matcher => m.cursor.size) h.1.symm)
  declaring_eat _ _ _ := trivial
  declaring_of_samePlace _ _ := trivial
  functionKind := by
    rintro t m m' m₁ r ⟨hx, -⟩ - ⟨hd, hcore⟩
    exact (hcore (hd.symm.trans hx)).elim

instance (x : Extension) (strict : Prop) (hx : strict → x = .core) (limit : Nat) :
    (same x strict hx limit).Exact := ⟨trivial⟩

end Comparison

end XQuerySyntax
