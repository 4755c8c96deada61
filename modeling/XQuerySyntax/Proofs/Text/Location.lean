import Mathlib.Data.List.DropRight
import XQuerySyntax.Proofs.Boundary
import XQuerySyntax.Text.Location

/-! Places in a text and their locations. Every character moves the location on, so two places have two
locations, in the order of the text, and the place can be found again by walking to the location. -/

namespace XQuerySyntax

namespace Location

variable {l l₁ l₂ l₃ : Location} {before after : List Char}

/-! ### The order of locations -/

/-- The location comes first, by line and in a line by column. -/
def Precedes (l₁ l₂ : Location) : Prop :=
  l₁.line < l₂.line ∨ l₁.line = l₂.line ∧ l₁.column < l₂.column

theorem Precedes.trans (h : l₁.Precedes l₂) (h' : l₂.Precedes l₃) : l₁.Precedes l₃ := by
  unfold Precedes at *
  omega

theorem Precedes.ne (h : l₁.Precedes l₂) : l₁ ≠ l₂ := by
  rintro rfl
  unfold Precedes at h
  omega

theorem precedes_advance (l : Location) (c : Char) : l.Precedes (l.advance c) := by
  unfold advance
  split
  · exact .inl (Nat.lt_succ_self _)
  · exact .inr ⟨rfl, Nat.lt_succ_self _⟩

theorem precedes_foldl_advance (l : Location) {text : List Char} (h : text ≠ []) :
    l.Precedes (text.foldl advance l) := by
  induction text generalizing l with
  | nil => exact absurd rfl h
  | cons c cs ih =>
    have hfirst := precedes_advance l c
    by_cases hcs : cs = []
    · rwa [hcs]
    · exact hfirst.trans (ih _ hcs)

/-! ### Where a walk ends -/

theorem walk_of_lt (l : Location) {text : List Char} {bytes : Nat} (h : ∀ c ∈ text.head?, bytes < c.utf8Size) :
    walk text bytes l = l := by
  cases text with
  | nil => rfl
  | cons c cs => exact if_neg (Nat.not_le_of_lt (h c rfl))

/-- A walk passes the characters that fit, and goes on behind them. -/
theorem walk_append (l : Location) (before after : List Char) (bytes : Nat) :
    walk (before ++ after) (byteLength before + bytes) l = walk after bytes (before.foldl advance l) := by
  induction before generalizing l with
  | nil => rw [List.nil_append, byteLength_nil, Nat.zero_add, List.foldl_nil]
  | cons c cs ih =>
    rw [List.cons_append, walk, byteLength_cons, if_pos (by omega), List.foldl_cons, ← ih]
    congr 1
    omega

/-- Within the character behind `before` the location is that of the character. -/
theorem ofOffset_within {text : String} (h : text.toList = before ++ after) {bytes : Nat}
    (hbytes : ∀ c ∈ after.head?, bytes < c.utf8Size) :
    ofOffset text (byteLength before + bytes) = before.foldl advance start := by
  rw [ofOffset, h, walk_append, walk_of_lt _ hbytes]

theorem ofOffset_boundary {text : String} (h : text.toList = before ++ after) :
    ofOffset text (byteLength before) = before.foldl advance start :=
  ofOffset_within h fun c _ => c.utf8Size_pos

/-! ### What a location counts -/

/-- The characters behind the last line break. -/
def lastLine (text : List Char) : List Char := text.rtakeWhile (· ≠ '\n')

/-- The line counts the line breaks passed, and the column the characters behind the last one. -/
theorem foldl_advance_start (text : List Char) :
    text.foldl advance start = ⟨text.count '\n' + 1, (lastLine text).length + 1⟩ := by
  induction text using List.reverseRecOn with
  | nil => rfl
  | append_singleton text c ih =>
    rw [List.foldl_append, ih, List.foldl_cons, List.foldl_nil, advance, List.count_append]
    unfold lastLine
    by_cases hc : c = '\n'
    · rw [if_pos hc, List.rtakeWhile_concat_neg _ _ _ (by simp [hc]), hc]
      rfl
    · rw [if_neg hc, List.rtakeWhile_concat_pos _ _ _ (by simp [hc]), List.length_append,
        List.count_singleton, if_neg (by simpa using hc)]
      rfl

/-! ### Back to the place -/

/-- Walks from a location to another one and counts the bytes passed. -/
def bytesTo (l : Location) : List Char → Location → Nat
  | [], _ => 0
  | c :: cs, current => if current = l then 0 else c.utf8Size + bytesTo l cs (current.advance c)

/-- The byte offset of the place that has the location. -/
def offsetIn (text : String) (l : Location) : Nat := bytesTo l text.toList start

theorem bytesTo_foldl (l : Location) (before after : List Char) :
    bytesTo (before.foldl advance l) (before ++ after) l = byteLength before := by
  induction before generalizing l with
  | nil =>
    cases after with
    | nil => rfl
    | cons c cs => exact if_pos rfl
  | cons c cs ih =>
    have hne := (precedes_foldl_advance l (List.cons_ne_nil c cs)).ne
    rw [List.cons_append, bytesTo, if_neg hne, List.foldl_cons, ih, byteLength_cons]

/-- Locations grow with the place, the place is found again from its location, an offset inside a character
has the location of the character, and one past the end that of the end. -/
theorem locations_are_strictly_monotone (text : String) :
    (∀ a b, IsBoundary text a → IsBoundary text b → a < b → (ofOffset text a).Precedes (ofOffset text b)) ∧
      (∀ a b, IsBoundary text a → IsBoundary text b → ofOffset text a = ofOffset text b → a = b) ∧
      (∀ a, IsBoundary text a → offsetIn text (ofOffset text a) = a) ∧
      (∀ before after, text.toList = before ++ after →
        ofOffset text (byteLength before) = ⟨before.count '\n' + 1, (lastLine before).length + 1⟩) ∧
      (∀ before c after, text.toList = before ++ c :: after → ∀ n < c.utf8Size,
        ofOffset text (byteLength before + n) = ofOffset text (byteLength before)) ∧
      ∀ n, text.utf8ByteSize ≤ n → ofOffset text n = ofOffset text text.utf8ByteSize := by
  have hback (a : Nat) (ha : IsBoundary text a) : offsetIn text (ofOffset text a) = a := by
    obtain ⟨before, after, htext, rfl⟩ := isBoundary_iff.1 ha
    rw [ofOffset_boundary htext, offsetIn, htext, bytesTo_foldl]
  refine ⟨?_, fun a b ha hb h => ?_, hback, fun before after htext => ?_, fun before c after htext n hn => ?_,
    fun n hn => ?_⟩
  · intro a b ha hb hlt
    obtain ⟨before, after, htext, rfl⟩ := isBoundary_iff.1 ha
    obtain ⟨before', after', htext', rfl⟩ := isBoundary_iff.1 hb
    -- Of two beginnings of a text the shorter one begins the other.
    obtain ⟨between, rfl, -⟩ | ⟨between, rfl, -⟩ := List.append_eq_append_iff.1 (htext.symm.trans htext')
    · have hne : between ≠ [] := by
        rintro rfl
        simp at hlt
      rw [ofOffset_boundary htext, ofOffset_boundary htext', List.foldl_append]
      exact precedes_foldl_advance _ hne
    · rw [byteLength_append] at hlt
      omega
  · rw [← hback a ha, h, hback b hb]
  · rw [ofOffset_boundary htext, foldl_advance_start]
  · rw [ofOffset_boundary htext]
    refine ofOffset_within htext ?_
    rintro _ ⟨⟩
    exact hn
  · have hsize : text.utf8ByteSize = byteLength text.toList := by
      rw [← utf8ByteSize_ofList, String.ofList_toList]
    have htext : text.toList = text.toList ++ [] := (List.append_nil _).symm
    obtain ⟨k, rfl⟩ := Nat.exists_eq_add_of_le hn
    rw [hsize, ofOffset_boundary htext, ofOffset_within htext fun _ h => (nomatch h)]

/-- Behind a line break and a character of two bytes. -/
example : ofOffset "a\né<" 4 = ⟨2, 2⟩ ∧ ofOffset "a\né<" 3 = ⟨2, 1⟩ ∧ offsetIn "a\né<" ⟨2, 2⟩ = 4 := by
  decide

end Location

end XQuerySyntax
