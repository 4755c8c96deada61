import Mathlib.Algebra.Order.Floor.Semiring
import Mathlib.Data.Rat.Floor
import Mathlib.Tactic.FieldSimp
import Mathlib.Tactic.Linarith
import Mathlib.Tactic.NormNum
import Mathlib.Tactic.Positivity
import Mathlib.Tactic.Ring
import XQuerySyntax.Proofs.Literal.Quoted

/-! Reading decimal numbers. What is read is the number that is written, rounded half up to as many places as
leave its mantissa within 96 bits; it is the number itself just if that has a mantissa and a scale within
their limits. -/

namespace XQuerySyntax

namespace Decimal

/-- The number. -/
def toRat (d : Decimal) : ℚ := d.mantissa / 10 ^ d.scale

/-- Mantissa and scale are within their limits. -/
structure Fits (d : Decimal) : Prop where
  mantissa_lt : d.mantissa < 2 ^ 96
  scale_le : d.scale ≤ 28

/-- The number that is written by the digits before and after a point. -/
def written (whole fraction : List Char) : ℚ :=
  placeValue 10 digitValue (whole ++ fraction) / 10 ^ fraction.length

/-- A number rounded to so many places, halves up. -/
def rounded (places : Nat) (r : ℚ) : ℚ := ⌊r * 10 ^ places + 1 / 2⌋₊ / 10 ^ places

/-- Rounded to so many places the number has a mantissa that fits. -/
def CanKeep (r : ℚ) (places : Nat) : Prop := r * 10 ^ places + 1 / 2 < 2 ^ 96

instance (r : ℚ) : DecidablePred (CanKeep r) := fun places =>
  inferInstanceAs (Decidable (r * 10 ^ places + 1 / 2 < 2 ^ 96))

/-- The largest number of places, up to 28, that can be kept. -/
def keptPlaces (r : ℚ) : Nat := Nat.findGreatest (CanKeep r) 28

variable {r : ℚ} {d : Decimal} {places : Nat}

/-! ### Places that can be kept -/

theorem CanKeep.of_le (hr : 0 ≤ r) {more : Nat} (h : CanKeep r more) (hle : places ≤ more) :
    CanKeep r places := by
  have hpow : (10 : ℚ) ^ places ≤ 10 ^ more := pow_le_pow_right₀ (by norm_num) hle
  have hscaled : r * 10 ^ places ≤ r * 10 ^ more := mul_le_mul_of_nonneg_left hpow hr
  unfold CanKeep at h ⊢
  linarith

theorem keptPlaces_eq (hr : 0 ≤ r) (hplaces : places ≤ 28) (hkeep : CanKeep r places)
    (hmore : places < 28 → ¬CanKeep r (places + 1)) : keptPlaces r = places := by
  refine Nat.findGreatest_eq_iff.2 ⟨hplaces, fun _ => hkeep, fun more hlt hle hkept => ?_⟩
  exact hmore (by omega) (hkept.of_le hr hlt)

theorem le_keptPlaces (hplaces : places ≤ 28) (hkeep : CanKeep r places) : places ≤ keptPlaces r :=
  Nat.le_findGreatest hplaces hkeep

theorem toRat_nonneg (d : Decimal) : 0 ≤ d.toRat := by
  unfold toRat
  positivity

theorem toRat_mul (d : Decimal) : d.toRat * 10 ^ d.scale = d.mantissa := by
  unfold toRat
  field_simp

/-- With all its places a number that fits is its own mantissa. -/
theorem Fits.canKeep (h : d.Fits) : CanKeep d.toRat d.scale := by
  have hm : (d.mantissa : ℚ) + 1 ≤ 2 ^ 96 := by exact_mod_cast h.mantissa_lt
  unfold CanKeep
  rw [toRat_mul]
  linarith

/-- Rounding to as many places as a number has, or more, does not change it. -/
theorem rounded_toRat (h : d.scale ≤ places) : rounded places d.toRat = d.toRat := by
  obtain ⟨more, rfl⟩ := Nat.exists_eq_add_of_le h
  have hscaled : d.toRat * 10 ^ (d.scale + more) = (d.mantissa * 10 ^ more : ℕ) := by
    rw [pow_add, ← mul_assoc, toRat_mul]
    push_cast
    rfl
  have hfloor : ⌊((d.mantissa * 10 ^ more : ℕ) : ℚ) + 1 / 2⌋₊ = d.mantissa * 10 ^ more := by
    rw [Nat.floor_eq_iff (by positivity)]
    constructor <;> linarith
  rw [rounded, hscaled, hfloor, ← hscaled]
  field_simp

/-! ### Reading digit by digit -/

/-- What is read of a number: the number rounded to the places that can be kept, or nothing if not even the
whole part can. -/
def Rounds (r : ℚ) : Option Decimal → Prop
  | some d => CanKeep r 0 ∧ d.Fits ∧ d.toRat = rounded (keptPlaces r) r
  | none => ¬CanKeep r 0

theorem rounds_exact (h : d.Fits) : Rounds d.toRat (some d) := by
  have hkeep := h.canKeep
  refine ⟨hkeep.of_le d.toRat_nonneg (Nat.zero_le _), h, ?_⟩
  rw [rounded_toRat (le_keptPlaces h.scale_le hkeep)]

theorem rounds_some {r : ℚ} {d : Decimal} (hr : 0 ≤ r) (hd : d.Fits) (hkeep : CanKeep r d.scale)
    (hmore : d.scale < 28 → ¬CanKeep r (d.scale + 1))
    (hfloor : ⌊r * 10 ^ d.scale + 1 / 2⌋₊ = d.mantissa) : Rounds r (some d) := by
  refine ⟨hkeep.of_le hr (Nat.zero_le _), hd, ?_⟩
  rw [keptPlaces_eq hr hd.scale_le hkeep hmore, rounded, hfloor, toRat]

/-- The first digit that does not fit decides the rounding. -/
theorem rounds_roundBy {digit : Nat} (hr : 0 ≤ r) (hd : d.Fits) (hdigit : digit < 10)
    (hlow : (d.mantissa : ℚ) + digit / 10 ≤ r * 10 ^ d.scale)
    (hhigh : r * 10 ^ d.scale < d.mantissa + (digit + 1) / 10)
    (hmore : d.scale < 28 → 2 ^ 96 ≤ 10 * d.mantissa + digit) : Rounds r (d.roundBy digit) := by
  have hbound : mantissaBound = 2 ^ 96 := rfl
  have hfits := hd.mantissa_lt
  have hnext : d.scale < 28 → ¬CanKeep r (d.scale + 1) := by
    intro hscale hkeep
    have hnext : (2 : ℚ) ^ 96 ≤ 10 * d.mantissa + digit := by exact_mod_cast hmore hscale
    unfold CanKeep at hkeep
    rw [pow_succ, ← mul_assoc] at hkeep
    linarith
  unfold roundBy
  split
  · rename_i hdown
    have hdown : (digit : ℚ) + 1 ≤ 5 := by exact_mod_cast hdown
    have hm : (d.mantissa : ℚ) + 1 ≤ 2 ^ 96 := by exact_mod_cast hfits
    have hzero : (0 : ℚ) ≤ digit := by positivity
    refine rounds_some hr hd ?_ hnext ?_
    · unfold CanKeep
      linarith
    · rw [Nat.floor_eq_iff (by positivity)]
      constructor <;> linarith
  rename_i hup
  have hup : (5 : ℚ) ≤ digit := by exact_mod_cast Nat.not_lt.1 hup
  have hdigit : (digit : ℚ) + 1 ≤ 10 := by exact_mod_cast hdigit
  split
  · rename_i hroom
    have hroom : (d.mantissa : ℚ) + 2 ≤ 2 ^ 96 := by
      rw [hbound] at hroom
      exact_mod_cast hroom
    refine rounds_some hr ⟨by rw [hbound] at *; assumption, hd.scale_le⟩ ?_ hnext ?_
    · change r * 10 ^ d.scale + 1 / 2 < 2 ^ 96
      linarith
    · change ⌊r * 10 ^ d.scale + 1 / 2⌋₊ = d.mantissa + 1
      rw [Nat.floor_eq_iff (by positivity)]
      push_cast
      constructor <;> linarith
  · rename_i hfull
    have hfull : d.mantissa = 2 ^ 96 - 1 := by
      rw [hbound] at hfull
      omega
    have hm : (d.mantissa : ℚ) = 2 ^ 96 - 1 := by
      rw [hfull]
      norm_num
    have hover : ¬CanKeep r d.scale := by
      unfold CanKeep
      linarith
    split
    · rename_i hscale
      rwa [hscale] at hover
    · rename_i hscale
      -- One place less is kept, so the number is rounded to the tens of its mantissa.
      obtain ⟨fewer, hfewer⟩ := Nat.exists_eq_succ_of_ne_zero hscale
      have hle := hd.scale_le
      rw [hfewer, pow_succ, ← mul_assoc] at hlow hhigh
      rw [hm] at hlow hhigh
      have hpred : d.scale - 1 = fewer := by omega
      rw [hfull, hpred]
      have hmantissa : (2 ^ 96 - 1 + 1 + 4) / 10 = 7922816251426433759354395034 := by norm_num
      rw [hmantissa]
      have hnot : ¬CanKeep r (fewer + 1) := by rwa [hfewer] at hover
      have hfewer_le : fewer ≤ 28 := by omega
      refine rounds_some hr ⟨by norm_num, hfewer_le⟩ ?_ (fun _ => hnot) ?_
      · change r * 10 ^ fewer + 1 / 2 < 2 ^ 96
        linarith
      · change ⌊r * 10 ^ fewer + 1 / 2⌋₊ = 7922816251426433759354395034
        rw [Nat.floor_eq_iff (by positivity)]
        push_cast
        constructor <;> linarith

/-! ### Reading all digits -/

theorem digitValue_lt {c : Char} (h : c.isDigit) : digitValue c < 10 := by
  simp only [Char.isDigit, Bool.and_eq_true, decide_eq_true_eq, UInt32.le_iff_toNat_le] at h
  change 48 ≤ c.toNat ∧ c.toNat ≤ 57 at h
  change c.toNat - 48 < 10
  omega

theorem placeValue_append (front digits : List Char) :
    placeValue 10 digitValue (front ++ digits) =
      placeValue 10 digitValue front * 10 ^ digits.length + placeValue 10 digitValue digits := by
  unfold placeValue
  rw [List.map_append, List.reverse_append, Nat.ofDigits_append, List.length_reverse, List.length_map,
    Nat.add_comm, Nat.mul_comm]

theorem placeValue_cons (c : Char) (digits : List Char) :
    placeValue 10 digitValue (c :: digits) =
      digitValue c * 10 ^ digits.length + placeValue 10 digitValue digits := by
  have hsingle : placeValue 10 digitValue [c] = digitValue c := Nat.ofDigits_singleton
  rw [← hsingle]
  exact placeValue_append [c] digits

theorem placeValue_lt {digits : List Char} (h : ∀ c ∈ digits, c.isDigit) :
    placeValue 10 digitValue digits < 10 ^ digits.length := by
  induction digits with
  | nil => exact Nat.one_pos
  | cons c digits ih =>
    obtain ⟨hc, hdigits⟩ := List.forall_mem_cons.1 h
    have hfirst := digitValue_lt hc
    have hrest := ih hdigits
    rw [placeValue_cons, List.length_cons, pow_succ]
    nlinarith

/-- The number that a decimal becomes when these digits are written behind it. -/
def followedBy (d : Decimal) (digits : List Char) : ℚ :=
  d.toRat + placeValue 10 digitValue digits / 10 ^ (d.scale + digits.length)

theorem followedBy_nil (d : Decimal) : d.followedBy [] = d.toRat := by
  simp [followedBy, placeValue]

theorem followedBy_cons (d : Decimal) (c : Char) (digits : List Char) :
    d.followedBy (c :: digits) =
      followedBy ⟨10 * d.mantissa + digitValue c, d.scale + 1⟩ digits := by
  have hlength : d.scale + (c :: digits).length = d.scale + 1 + digits.length := by
    rw [List.length_cons]
    omega
  unfold followedBy toRat
  rw [placeValue_cons, hlength]
  push_cast
  rw [pow_add, pow_add]
  field_simp
  ring

theorem rounds_appendFraction {d : Decimal} {digits : List Char} (hd : d.Fits)
    (hdigits : ∀ c ∈ digits, c.isDigit) : Rounds (d.followedBy digits) (d.appendFraction digits) := by
  induction digits generalizing d with
  | nil =>
    rw [followedBy_nil]
    exact rounds_exact hd
  | cons c digits ih =>
    obtain ⟨hc, hrest⟩ := List.forall_mem_cons.1 hdigits
    rw [appendFraction]
    split
    · rename_i hroom
      rw [followedBy_cons]
      exact ih ⟨hroom.2, hroom.1⟩ hrest
    · rename_i hfull
      have hbehind : (placeValue 10 digitValue digits : ℚ) / 10 ^ digits.length < 1 := by
        rw [div_lt_one (by positivity)]
        exact_mod_cast placeValue_lt hrest
      have hpositive : (0 : ℚ) ≤ placeValue 10 digitValue digits / 10 ^ digits.length := by positivity
      have hscaled : d.followedBy (c :: digits) * 10 ^ d.scale =
          d.mantissa + (digitValue c + placeValue 10 digitValue digits / 10 ^ digits.length) / 10 := by
        rw [followedBy, add_mul, toRat_mul, placeValue_cons, List.length_cons]
        push_cast
        rw [pow_add, pow_succ]
        field_simp
      have hnonneg : 0 ≤ d.followedBy (c :: digits) := add_nonneg d.toRat_nonneg (by positivity)
      refine rounds_roundBy hnonneg hd (digitValue_lt hc) ?_ ?_ fun hscale => ?_
      · rw [hscaled]
        linarith
      · rw [hscaled]
        linarith
      · by_contra hlt
        exact hfull ⟨hscale, Nat.not_le.1 hlt⟩

/-! ### Zeros at the end -/

theorem stripZeros_spec (m scale : Nat) :
    (stripZeros m scale).toRat = toRat ⟨m, scale⟩ ∧
      (stripZeros m scale).mantissa ≤ m ∧ (stripZeros m scale).scale ≤ scale := by
  induction scale generalizing m with
  | zero => exact ⟨rfl, Nat.le_refl _, Nat.le_refl _⟩
  | succ scale ih =>
    rw [stripZeros]
    split
    · rename_i hzero
      obtain ⟨hvalue, hmantissa, hscale⟩ := ih (m / 10)
      refine ⟨?_, by omega, by omega⟩
      obtain ⟨n, rfl⟩ := Nat.dvd_of_mod_eq_zero hzero
      rw [hvalue, Nat.mul_div_cancel_left _ (by omega), toRat, toRat]
      push_cast
      rw [pow_succ]
      field_simp
    · exact ⟨rfl, Nat.le_refl _, Nat.le_refl _⟩

theorem Rounds.normalize {read : Option Decimal} (h : Rounds r read) :
    Rounds r (read.map Decimal.normalize) := by
  cases read with
  | none => exact h
  | some d =>
    obtain ⟨hkeep, hfits, hvalue⟩ := h
    obtain ⟨hsame, hmantissa, hscale⟩ := stripZeros_spec d.mantissa d.scale
    exact ⟨hkeep, ⟨hmantissa.trans_lt hfits.mantissa_lt, hscale.trans hfits.scale_le⟩, hsame.trans hvalue⟩

/-- What is read of the digits before and after a point. -/
theorem rounds_ofParts (whole : List Char) {fraction : List Char} (hf : ∀ c ∈ fraction, c.isDigit) :
    Rounds (written whole fraction) (ofParts whole fraction) := by
  have hsplit : written whole fraction = followedBy ⟨ofDigits whole, 0⟩ fraction := by
    unfold written followedBy toRat
    rw [placeValue_append, ofDigits_eq_placeValue, Nat.zero_add]
    push_cast
    field_simp
  rw [hsplit, ofParts, ofWhole]
  split
  · rename_i hwhole
    exact (rounds_appendFraction ⟨hwhole, Nat.zero_le _⟩ hf).normalize
  · rename_i hwhole
    have hlarge : (2 : ℚ) ^ 96 ≤ ofDigits whole := by exact_mod_cast Nat.not_lt.1 hwhole
    have hvalue : toRat ⟨ofDigits whole, 0⟩ = ofDigits whole := by simp [toRat]
    have hbehind : (0 : ℚ) ≤ placeValue 10 digitValue fraction / 10 ^ (0 + fraction.length) := by
      positivity
    intro hkeep
    change followedBy _ _ * 10 ^ 0 + 1 / 2 < 2 ^ 96 at hkeep
    rw [followedBy, hvalue, pow_zero, mul_one] at hkeep
    linarith

end Decimal

end XQuerySyntax
