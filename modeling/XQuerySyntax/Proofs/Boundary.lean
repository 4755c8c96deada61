import XQuerySyntax.Proofs.Contract
import XQuerySyntax.Proofs.Rollback
import XQuerySyntax.Proofs.RoundTrip.Lexeme

/-! Places in a text. A scanner takes whole characters, so what it leaves, and the place where it finds
a fault, are ends of the text; their byte offsets lie between two characters. -/

namespace XQuerySyntax

/-- The byte offset lies in the text, between two characters or at an end. -/
def IsBoundary (text : String) (offset : Nat) : Prop := (String.Pos.Raw.mk offset).IsValid text

theorem isBoundary_zero (text : String) : IsBoundary text 0 := String.Pos.Raw.isValid_zero

theorem utf8ByteSize_ofList (cs : List Char) : (String.ofList cs).utf8ByteSize = byteLength cs := by
  induction cs with
  | nil => rfl
  | cons c cs ih =>
    rw [String.ofList_cons, String.utf8ByteSize_append, String.utf8ByteSize_singleton, ih,
      byteLength_cons]

/-- An end of the text begins between two characters. -/
theorem isBoundary_of_suffix {text : String} {rest : List Char} (h : rest <:+ text.toList) :
    IsBoundary text (byteLength text.toList - byteLength rest) := by
  obtain ⟨before, hb⟩ := h
  refine String.Pos.Raw.isValid_iff_exists_append.2 ⟨.ofList before, .ofList rest, ?_, ?_⟩
  · rw [← String.ofList_append, hb, String.ofList_toList]
  · rw [← hb, byteLength_append, Nat.add_sub_cancel, String.rawEndPos, utf8ByteSize_ofList]

/-- A place lies behind some first characters of the text. -/
theorem isBoundary_iff {text : String} {offset : Nat} : IsBoundary text offset ↔
    ∃ before after, text.toList = before ++ after ∧ offset = byteLength before := by
  constructor
  · intro h
    obtain ⟨before, after, htext, hoffset⟩ := String.Pos.Raw.isValid_iff_exists_append.1 h
    refine ⟨before.toList, after.toList, by rw [htext, String.toList_append], ?_⟩
    have hsize := congrArg String.Pos.Raw.byteIdx hoffset
    rw [← String.ofList_toList (s := before), String.rawEndPos, utf8ByteSize_ofList] at hsize
    exact hsize
  · rintro ⟨before, after, htext, rfl⟩
    have hsuffix : after <:+ text.toList := ⟨before, htext.symm⟩
    have h := isBoundary_of_suffix hsuffix
    rwa [htext, byteLength_append, Nat.add_sub_cancel] at h

/-! ### Scanners -/

namespace Scanned

variable {α β : Type} {text text' : List Char} {s : Scanned α}

/-- What is left behind a lexeme, or the place of a fault, is an end of the text. -/
def Within (text : List Char) : Scanned α → Prop
  | found _ rest => rest <:+ text
  | absent => True
  | faulty _ place => place <:+ text

theorem Within.mono (h : s.Within text) (ht : text <:+ text') : s.Within text' := by
  cases s with
  | found a rest => exact List.IsSuffix.trans h ht
  | absent => trivial
  | faulty fault place => exact List.IsSuffix.trans h ht

theorem Within.map (f : α → β) (h : s.Within text) : (s.map f).Within text := by
  cases s <;> exact h

theorem of_map_eq_found {f : α → β} {b : β} {rest : List Char} (h : s.map f = .found b rest) :
    ∃ a, b = f a := by
  cases s with
  | found a _ =>
    cases h
    exact ⟨a, rfl⟩
  | absent => cases h
  | faulty _ _ => cases h

theorem suffix_of_splitAt? {terminator body rest : List Char}
    (h : splitAt? terminator text = some (body, rest)) : rest <:+ text :=
  ⟨body ++ terminator, (eq_append_of_splitAt? h).symm⟩

end Scanned

open Scanned

theorem suffix_of_skipCommentBody {depth : Nat} {text rest : List Char}
    (h : skipCommentBody depth text = some rest) : rest <:+ text := by
  induction depth, text using skipCommentBody.induct with
  | case1 => cases h
  | case2 depth cs ih =>
    rw [skipCommentBody] at h
    exact ((ih h).trans (List.suffix_cons _ _)).trans (List.suffix_cons _ _)
  | case3 cs =>
    cases h
    exact (List.suffix_cons _ _).trans (List.suffix_cons _ _)
  | case4 depth cs ih =>
    rw [skipCommentBody] at h
    exact ((ih h).trans (List.suffix_cons _ _)).trans (List.suffix_cons _ _)
  | case5 depth c cs hopen hclose hdeep ih =>
    rw [skipCommentBody.eq_5 _ _ _ hopen hclose hdeep] at h
    exact (ih h).trans (List.suffix_cons _ _)

theorem scanTrivia_within (comments : Bool) (text : List Char) :
    (scanTrivia comments text).Within text := by
  have hblanks : text.dropWhile isBlank <:+ text := List.dropWhile_suffix _
  rw [scanTrivia_eq]
  split
  · cases hs : skipCommentBody 0 ((text.dropWhile isBlank).drop 2) with
    | none => exact hblanks
    | some rest =>
      have hrest : rest <:+ text :=
        ((suffix_of_skipCommentBody hs).trans (List.drop_suffix _ _)).trans hblanks
      have hlt : rest.length < text.length := by
        have hbody := length_of_skipCommentBody hs
        have hle := hblanks.length_le
        rw [List.length_drop] at hbody
        omega
      exact (scanTrivia_within comments rest).mono hrest
  · exact hblanks
termination_by text.length

theorem scanName_within (text : List Char) : (scanName text).Within text := by
  cases text with
  | nil => trivial
  | cons c cs =>
    rw [scanName]
    split
    · exact (List.dropWhile_suffix _).trans (List.suffix_cons _ _)
    · trivial

theorem scanQualifiedName_within (text : List Char) : (scanQualifiedName text).Within text := by
  have hfirst := scanName_within text
  unfold scanQualifiedName
  split
  · rename_i first rest hs
    rw [hs] at hfirst
    have hrest : rest <:+ text := (List.suffix_cons _ _).trans hfirst
    have hsecond := scanName_within rest
    split
    · rename_i second rest' hs'
      rw [hs'] at hsecond
      exact hsecond.trans hrest
    · exact hfirst
  · rename_i hs
    rw [hs] at hfirst
    exact hfirst
  · trivial
  · rename_i hs
    rw [hs] at hfirst
    exact hfirst

theorem suffix_of_scanDigits (text : List Char) : (scanDigits text).2 <:+ text :=
  List.dropWhile_suffix _

theorem suffix_of_scanMantissa {text whole rest : List Char} {fraction : Option (List Char)}
    (h : scanMantissa text = some (whole, fraction, rest)) : rest <:+ text := by
  have hdigits := suffix_of_scanDigits text
  unfold scanMantissa at h
  split at h
  · rename_i rest₁ hs
    rw [hs] at hdigits
    have hfraction := suffix_of_scanDigits rest₁
    split at h
    · cases h
    · rename_i hs'
      rw [hs'] at hfraction
      cases h
      exact (hfraction.trans (List.suffix_cons _ _)).trans hdigits
  · cases h
  · rename_i rest₁ _ hs
    rw [hs] at hdigits
    cases h
    exact ((suffix_of_scanDigits rest₁).trans (List.suffix_cons _ _)).trans hdigits
  · rename_i hs
    rw [hs] at hdigits
    cases h
    exact hdigits

theorem suffix_of_scanExponent (text : List Char) : (scanExponent text).2 <:+ text := by
  cases text with
  | nil => exact List.suffix_rfl
  | cons mark rest =>
    have htail : rest <:+ mark :: rest := List.suffix_cons mark rest
    unfold scanExponent
    dsimp -zeta only
    split
    · extract_lets signed
      have hsigned : signed.2 <:+ mark :: rest := by
        dsimp only [signed]
        split
        · exact (List.suffix_cons _ _).trans htail
        · exact (List.suffix_cons _ _).trans htail
        · exact htail
      have hbehind := (suffix_of_scanDigits signed.2).trans hsigned
      split
      · exact List.suffix_rfl
      · rename_i hs
        rw [hs] at hbehind
        exact hbehind
    · exact List.suffix_rfl

theorem scanNumeral_within (text : List Char) : (scanNumeral text).Within text := by
  unfold scanNumeral
  split
  · trivial
  · rename_i whole fraction rest hs
    have hrest := (suffix_of_scanExponent rest).trans (suffix_of_scanMantissa hs)
    dsimp only
    split
    · exact hrest
    · exact hrest

theorem scanReference_within (text : List Char) : (scanReference text).Within text := by
  unfold scanReference
  split
  · rename_i cs
    have hdrop : cs.dropWhile isReferenceChar <:+ cs := List.dropWhile_suffix _
    split
    · rename_i rest _ hs
      rw [hs] at hdrop
      split
      · exact ((List.suffix_cons _ _).trans hdrop).trans (List.suffix_cons _ _)
      · exact List.suffix_rfl
    · exact List.suffix_rfl
  · trivial

theorem scanStringBody_within (quote : Char) (text : List Char) :
    (scanStringBody quote text).Within text := by
  rw [scanStringBody.eq_def]
  split
  · trivial
  rename_i c cs
  have htail : cs <:+ c :: cs := List.suffix_cons c cs
  have hreference := scanReference_within (c :: cs)
  split
  · split
    · rename_i value rest hs
      have hlt := length_of_scanReference hs
      rw [hs] at hreference
      exact ((scanStringBody_within quote rest).mono hreference).map _
    · trivial
    · rename_i hs
      rw [hs] at hreference
      exact hreference
  · split
    · split
      · exact htail
      · rename_i d ds
        split
        · have hrest : ds <:+ c :: d :: ds := (List.suffix_cons d ds).trans htail
          exact ((scanStringBody_within quote ds).mono hrest).map _
        · exact htail
    · exact ((scanStringBody_within quote cs).mono htail).map _
termination_by text.length

theorem scanStringLiteral_within (text : List Char) : (scanStringLiteral text).Within text := by
  unfold scanStringLiteral
  split
  · trivial
  · rename_i c cs
    have hbody := (scanStringBody_within c cs).mono (List.suffix_cons c cs)
    split
    · split
      · rename_i hs
        rw [hs] at hbody
        exact hbody
      · exact List.suffix_rfl
      · rename_i hs
        rw [hs] at hbody
        exact hbody
    · trivial

theorem scanMarkupRun_within (delimiter : Option Char) (text : List Char) :
    (scanMarkupRun delimiter text).Within text := by
  rw [scanMarkupRun.eq_def]
  split
  · exact List.suffix_rfl
  rename_i c cs
  have htail : cs <:+ c :: cs := List.suffix_cons c cs
  have hdrop : cs.drop 1 <:+ c :: cs := (List.drop_suffix 1 cs).trans htail
  have hlt : (cs.drop 1).length < (c :: cs).length := by
    rw [List.length_drop, List.length_cons]
    omega
  have hreference := scanReference_within (c :: cs)
  split
  · split
    · exact ((scanMarkupRun_within delimiter (cs.drop 1)).mono hdrop).map _
    split
    · exact List.suffix_rfl
    split
    · split
      · rename_i value rest hs
        have hlt := length_of_scanReference hs
        rw [hs] at hreference
        exact ((scanMarkupRun_within delimiter rest).mono hreference).map _
      · trivial
      · rename_i hs
        rw [hs] at hreference
        exact hreference
    split
    · exact List.suffix_rfl
    split
    · exact ((scanMarkupRun_within delimiter (cs.drop 1)).mono hdrop).map _
    · exact List.suffix_rfl
  · exact ((scanMarkupRun_within delimiter cs).mono htail).map _
termination_by text.length

/-- A run without characters has read nothing. -/
theorem eq_of_scanMarkupRun_nil {delimiter : Option Char} {text rest : List Char} {run : MarkupRun}
    (h : scanMarkupRun delimiter text = .found run rest) (hrun : run.chars = []) : rest = text := by
  have hescaped {s : Scanned MarkupRun} {c : Char}
      (hs : s.map (.consEscaped c) = .found run rest) : rest = text := by
    obtain ⟨a, rfl⟩ := of_map_eq_found hs
    cases hrun
  rw [scanMarkupRun.eq_def] at h
  split at h
  · cases h
    rfl
  split at h
  · split at h
    · exact hescaped h
    split at h
    · cases h
    split at h
    · split at h
      · exact hescaped h
      · cases h
      · cases h
    split at h
    · cases h
    split at h
    · exact hescaped h
    · cases h
      rfl
  · obtain ⟨a, rfl⟩ := of_map_eq_found h
    cases hrun

theorem scanMarkupText_within (delimiter : Option Char) (text : List Char) :
    (scanMarkupText delimiter text).Within text := by
  have hrun := scanMarkupRun_within delimiter text
  unfold scanMarkupText
  split <;> rename_i hs <;> rw [hs] at hrun
  · split
    · trivial
    · exact hrun
  · trivial
  · exact hrun

/-- Text between markup is never empty. -/
theorem scanMarkupText_ne_empty {delimiter : Option Char} {text rest : List Char} {t : MarkupText}
    (h : scanMarkupText delimiter text = .found t rest) : t.value ≠ "" := by
  unfold scanMarkupText at h
  split at h
  · rename_i run rest' hs
    split at h
    · cases h
    · rename_i hne
      cases h
      intro hempty
      have hchars : run.chars = [] := String.ofList_eq_empty_iff.1 hempty
      exact hne (congrArg List.length (eq_of_scanMarkupRun_nil hs hchars))
  · cases h
  · cases h

theorem scanMarkupComment_within (text : List Char) : (scanMarkupComment text).Within text := by
  unfold scanMarkupComment
  split
  · rename_i hs
    split
    · exact List.suffix_rfl
    · exact suffix_of_splitAt? hs
  · exact List.suffix_rfl

theorem scanLiteralSection_within (text : List Char) : (scanLiteralSection text).Within text := by
  unfold scanLiteralSection
  split
  · rename_i hs
    exact suffix_of_splitAt? hs
  · exact List.suffix_rfl

theorem scanDelimited_within (terminator construct : String) (text : List Char) :
    (scanDelimited terminator construct text).Within text := by
  unfold scanDelimited
  split
  · exact List.drop_suffix _ _
  · split
    · split
      · rename_i hs
        exact (suffix_of_splitAt? hs).trans (List.dropWhile_suffix _)
      · exact List.suffix_rfl
    · exact List.suffix_rfl

/-! ### Scanning steps -/

/-- A matcher that stands in a text. -/
structure Matcher.Within (text : String) (m : Matcher) : Prop where
  size : m.cursor.size = byteLength text.toList
  rest : m.cursor.rest <:+ text.toList
  token : m.token <:+ text.toList

namespace Matcher.Within

variable {text : String} {m : Matcher} {rest : List Char}

theorem ofText (text : String) (extensions : Extensions) : (Matcher.ofText text extensions).Within text :=
  ⟨rfl, List.suffix_rfl, List.suffix_rfl⟩

theorem offsetOf (h : m.Within text) (hrest : rest <:+ text.toList) :
    IsBoundary text (m.cursor.offsetOf rest) := by
  rw [Cursor.offsetOf, h.size]
  exact isBoundary_of_suffix hrest

theorem pos (h : m.Within text) : IsBoundary text m.cursor.pos := h.offsetOf h.rest

theorem tokenStart (h : m.Within text) : IsBoundary text m.tokenStart := h.offsetOf h.token

theorem nextOffset (h : m.Within text) : IsBoundary text m.nextOffset :=
  h.offsetOf ((List.dropWhile_suffix _).trans h.rest)

theorem moveTo (h : m.Within text) (hrest : rest <:+ text.toList) : (m.moveTo rest).Within text :=
  ⟨h.size, hrest, h.token⟩

end Matcher.Within

namespace Scan

variable {α β : Type} {text : String}

/-- From a matcher in the text, the step ends with a good answer and a matcher in the text, or with an
error between two characters of the text. -/
def Stays (text : String) (step : Scan α) (good : α → Prop) : Prop :=
  Contract (Matcher.Within text) step (fun a m => good a ∧ m.Within text)
    fun d _ => IsBoundary text d.offset

section

variable {step : Scan α} {next : α → Scan β} {good : α → Prop} {better : β → Prop}

theorem stays_pure {a : α} (h : good a) : Stays text (pure a) good := fun _ hm => ⟨h, hm⟩

theorem stays_bind (h : Stays text step good) (hn : ∀ a, good a → Stays text (next a) better) :
    Stays text (step >>= next) better :=
  Contract.bind h fun a m hm => hn a hm.1 m hm.2

theorem stays_map (f : α → β) (h : Stays text step fun a => better (f a)) :
    Stays text (f <$> step) better := Contract.map f h

theorem stays_ite {c : Prop} [Decidable c] {no : Scan α} (hy : Stays text step good)
    (hn : Stays text no good) : Stays text (if c then step else no) good :=
  Contract.ite (fun _ => hy) fun _ => hn

end

theorem stays_lexeme {scanner : List Char → Scanned α} {good : α → Prop}
    (h : ∀ t, (scanner t).Within t) (hgood : ∀ t a rest, scanner t = .found a rest → good a) :
    Stays text (lexeme scanner) fun found => ∀ a ∈ found, good a := by
  intro m hm
  have hs := h m.cursor.rest
  unfold lexeme
  cases hr : scanner m.cursor.rest with
  | found a rest =>
    rw [hr] at hs
    refine ⟨?_, hm.moveTo (List.IsSuffix.trans hs hm.rest)⟩
    rintro _ ⟨⟩
    exact hgood _ _ _ hr
  | absent => exact ⟨fun _ h => (nomatch h), hm⟩
  | faulty fault place =>
    rw [hr] at hs
    exact hm.offsetOf (List.IsSuffix.trans hs hm.rest)

section

variable {parts : List PatternItem} {afterWord : Bool}

/-- A lexeme of which only the place matters. -/
theorem stays_lexeme_place {scanner : List Char → Scanned α} (h : ∀ t, (scanner t).Within t) :
    Stays text (lexeme scanner) fun _ => True :=
  (stays_lexeme h fun _ _ _ _ => trivial).weaken (fun _ hm => hm) fun _ _ hm => ⟨trivial, hm.2⟩

theorem stays_skipTrivia : Stays text skipTrivia fun _ => True :=
  fun m hm => stays_map _ (stays_lexeme_place (scanTrivia_within m.state.skipsComments)) m hm

theorem stays_char (c : Char) : Stays text (char c) fun _ => True := by
  intro m hm
  unfold char
  split
  · exact ⟨trivial, hm.moveTo ((List.tail_suffix _).trans hm.rest)⟩
  · exact ⟨trivial, hm⟩

theorem stays_keep (capture : Option Capture) : Stays text (keep capture) fun _ => True := by
  intro m hm
  cases capture with
  | none => exact ⟨trivial, hm⟩
  | some c => exact ⟨trivial, ⟨hm.size, hm.rest, hm.token⟩⟩

/-- A number without a value is an error where the number begins. -/
theorem stays_number : Stays text number fun _ => True := by
  intro m hm
  have hl := stays_lexeme_place scanNumeral_within m hm
  unfold number
  cases hs : lexeme scanNumeral m with
  | ok found m' =>
    rw [hs] at hl
    cases found with
    | none => exact hl
    | some numeral =>
      dsimp only
      split
      · exact hl
      · exact hm.pos
  | error d m' =>
    rw [hs] at hl
    exact hl

theorem stays_placeholder (kind : Placeholder) : Stays text (placeholder kind) fun _ => True := by
  cases kind with
  | name => exact stays_bind (stays_lexeme_place scanName_within) fun _ _ => stays_keep _
  | qualifiedName =>
    exact stays_bind (stays_lexeme_place scanQualifiedName_within) fun _ _ => stays_keep _
  | string => exact stays_bind (stays_lexeme_place scanStringLiteral_within) fun _ _ => stays_keep _
  | number => exact stays_bind stays_number fun _ _ => stays_keep _

theorem stays_remaining : Stays text remaining fun rest => rest <:+ text.toList :=
  fun _ hm => ⟨hm.rest, hm⟩

theorem stays_separated : Stays text separated fun _ => True := fun _ hm => ⟨trivial, hm⟩

theorem stays_wordEnds : Stays text wordEnds fun _ => True := fun _ hm => ⟨trivial, hm⟩

/-- A pattern that matches answers with an end of the text. -/
theorem stays_items (anchor : Option (List Char)) (ha : ∀ rest ∈ anchor, rest <:+ text.toList) :
    Stays text (items parts afterWord anchor) fun found => ∀ rest ∈ found, rest <:+ text.toList := by
  have hnone : Stays text (pure none : Scan (Option (List Char)))
      fun found => ∀ rest ∈ found, rest <:+ text.toList := stays_pure fun _ h => (nomatch h)
  induction parts generalizing afterWord anchor with
  | nil =>
    refine stays_bind stays_remaining fun rest hrest => stays_pure ?_
    rintro _ ⟨⟩
    cases anchor with
    | none => exact hrest
    | some rest' => exact ha rest' rfl
  | cons part parts ih =>
    cases part with
    | anchor =>
      refine stays_bind stays_remaining fun rest hrest => ih _ ?_
      rintro _ ⟨⟩
      exact hrest
    | gap =>
      refine stays_bind stays_separated fun apart _ => stays_bind stays_skipTrivia fun _ _ => ?_
      exact stays_ite hnone (ih anchor ha)
    | capture kind =>
      exact stays_bind (stays_placeholder kind) fun _ _ => stays_ite (ih anchor ha) hnone
    | percent => exact stays_bind (stays_char '%') fun _ _ => stays_ite (ih anchor ha) hnone
    | never => exact hnone
    | char c =>
      refine stays_bind (stays_char c) fun _ _ => stays_ite (stays_ite ?_ (ih anchor ha)) hnone
      exact stays_bind stays_wordEnds fun _ _ => stays_ite (ih anchor ha) hnone

theorem stays_pattern : Stays text (pattern parts) fun _ => True := by
  intro m hm
  have hskip : Stays text (if m.state.skipsBlanks then skipTrivia else pure ()) fun _ => True :=
    stays_ite stays_skipTrivia (stays_pure trivial)
  have hm₀ : Matcher.Within text { m with captures := [] } := ⟨hm.size, hm.rest, hm.token⟩
  unfold pattern
  dsimp only
  split
  · rename_i d m₁ hs
    exact hskip.of_error hm₀ hs
  · rename_i m₁ hs
    have hm₁ : m₁.Within text := (hskip.of_ok hm₀ hs).2
    have hitems : Stays text (items parts false none)
        fun found => ∀ rest ∈ found, rest <:+ text.toList := stays_items none fun _ h => (nomatch h)
    split
    · rename_i rest m₂ hi
      obtain ⟨hrest, hm₂⟩ := hitems.of_ok hm₁ hi
      exact ⟨trivial, hm₂.size, hrest rest rfl, hm₁.rest⟩
    · rename_i m₂ hi
      have hm₂ := (hitems.of_ok hm₁ hi).2
      exact ⟨trivial, hm₂.size, hm.rest, hm₂.token⟩
    · rename_i d m₂ hi
      exact hitems.of_error hm₁ hi

end

theorem stays_eat (r : Rule) : Stays text (eat r) fun _ => True := by
  intro m hm
  have hp := (stays_pattern : Stays text (pattern r.items) fun _ => True) m hm
  unfold eat
  split
  · cases hs : pattern r.items m with
    | ok matched m' =>
      rw [hs] at hp
      cases matched with
      | true => exact ⟨trivial, hp.2.size, hp.2.rest, hp.2.token⟩
      | false => exact hp
    | error d m' =>
      rw [hs] at hp
      exact hp
  · exact ⟨trivial, hm⟩

theorem stays_peek (r : Rule) : Stays text (peek r) fun _ => True := by
  intro m hm
  have hp := (stays_pattern : Stays text (pattern r.items) fun _ => True) m hm
  unfold peek
  split
  · cases hs : pattern r.items m with
    | ok matched m' =>
      rw [hs] at hp
      exact ⟨trivial, hp.2.moveTo hm.rest⟩
    | error d m' =>
      rw [hs] at hp
      exact hp
  · exact ⟨trivial, hm⟩

theorem stays_atEnd : Stays text atEnd fun _ => True := by
  intro m hm
  have hl := stays_lexeme_place (scanTrivia_within true) m hm
  unfold atEnd
  cases hs : lexeme (scanTrivia true) m with
  | ok found m' =>
    rw [hs] at hl
    exact ⟨trivial, hl.2.moveTo hm.rest⟩
  | error d m' =>
    rw [hs] at hl
    exact hl

end Scan

end XQuerySyntax
