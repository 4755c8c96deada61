import XQuerySyntax.Proofs.Literal.Decimal
import XQuerySyntax.Proofs.RoundTrip.Printed

/-! Numeric literals. Digits alone are read as the number that they write, as an integer or as a decimal
according to its size, and are refused if it is too large for either. Digits with a point between them are
read up to the precision of decimals. -/

namespace XQuerySyntax

open Glimpse XQuerySyntax.Parser Grammar

variable {digits whole fraction text rest place space : List Char}

/-! ### What is scanned -/

theorem scanMantissa_fraction (hw : ∀ c ∈ whole, c.isDigit) (hf : ∀ c ∈ fraction, c.isDigit)
    (hne : whole ++ fraction ≠ []) (hr : ∀ c ∈ rest.head?, c.isDigit = false) :
    scanMantissa (whole ++ '.' :: (fraction ++ rest)) = some (whole, some fraction, rest) := by
  have hpoint : ∀ c ∈ ('.' :: (fraction ++ rest)).head?, c.isDigit = false := by
    rintro _ ⟨⟩
    rfl
  have hempty : ¬(whole = [] ∧ fraction = []) := fun h => hne (List.append_eq_nil_iff.2 h)
  rw [scanMantissa_point (scanDigits_append hw hpoint), scanDigits_append hf hr, if_neg hempty]

/-- The value of the digits of an integer: an integer as long as it is one of 63 bits, a decimal as long as
its mantissa is one of 96. -/
theorem Numeral.value_whole {n : Nat} (h : placeValue 10 Decimal.digitValue digits = n) :
    Numeral.value ⟨digits, none, none⟩ =
      if n ≤ 2 ^ 63 - 1 then .ok (.integer n)
      else if n < 2 ^ 96 then .ok (.decimal ⟨n, 0⟩)
      else .error .integer := by
  have hkind : Numeral.kind ⟨digits, none, none⟩ = .integer := rfl
  have hmax : Numeral.maxInteger = 2 ^ 63 - 1 := rfl
  have hbound : Decimal.mantissaBound = 2 ^ 96 := rfl
  unfold Numeral.value
  rw [hkind]
  dsimp only
  rw [Decimal.ofWhole, ofDigits_eq_placeValue, h, hmax, hbound]
  by_cases hsmall : n ≤ 2 ^ 63 - 1
  · rw [if_pos hsmall, if_pos hsmall]
  rw [if_neg hsmall, if_neg hsmall]
  by_cases hfits : n < 2 ^ 96
  · rw [if_pos hfits, if_pos hfits]
  · rw [if_neg hfits, if_neg hfits]

theorem Numeral.value_fraction (whole fraction : List Char) :
    Numeral.value ⟨whole, some fraction, none⟩ =
      match Decimal.ofParts whole fraction with
      | some d => .ok (.decimal d)
      | none => .error .decimal := rfl

/-! ### What a numeral begins with -/

/-- A numeral begins with a digit, or with a point and a digit. -/
def numeralViews : List (List Glimpse) := [[.digit], [.char '.', .digit]]

theorem numeralViews_settled : numeralViews.all isSettled := by rfl

/-- No expression but a literal begins like a numeral. -/
theorem numeralRules_decline : (keywordRules ++ signRules ++ valueRules).all fun r =>
    numeralViews.all (Scan.declines .expression r) := by
  rw [Scan.declines_eq]
  rfl

/-- The text begins like a numeral. -/
def BeginsNumeral (text : List Char) : Prop := ∃ view ∈ numeralViews, Shows true view text

theorem beginsNumeral_digits (hne : digits ≠ []) (hdigits : ∀ c ∈ digits, c.isDigit)
    (rest : List Char) : BeginsNumeral (digits ++ rest) := by
  obtain ⟨d, digits, rfl⟩ := List.exists_cons_of_ne_nil hne
  exact ⟨[.digit], List.mem_cons_self, d, digits ++ rest, rfl, hdigits d List.mem_cons_self, trivial⟩

theorem beginsNumeral_fraction (hw : ∀ c ∈ whole, c.isDigit) (hf : ∀ c ∈ fraction, c.isDigit)
    (hne : whole ++ fraction ≠ []) (rest : List Char) :
    BeginsNumeral (whole ++ '.' :: (fraction ++ rest)) := by
  by_cases hwhole : whole = []
  · subst hwhole
    obtain ⟨d, fraction, rfl⟩ := List.exists_cons_of_ne_nil hne
    refine ⟨[.char '.', .digit], List.mem_cons_of_mem _ List.mem_cons_self, _, rfl, ?_⟩
    exact ⟨d, fraction ++ rest, rfl, hf d List.mem_cons_self, trivial⟩
  · exact beginsNumeral_digits hwhole hw _

theorem BeginsNumeral.settled (h : BeginsNumeral text) : startsTrivia true text = false := by
  obtain ⟨view, hview, hs⟩ := h
  exact hs.settled (List.all_eq_true.1 numeralViews_settled view hview)

theorem BeginsNumeral.declines (h : BeginsNumeral text) (hspace : Trivia space) :
    ∀ r ∈ keywordRules ++ signRules ++ valueRules, Declines .expression (space ++ text) r := by
  intro r hr
  obtain ⟨view, hview, hs⟩ := h
  have hbegins : Begins numeralViews (space ++ text) := ⟨space, text, view, rfl, hspace, hview, hs⟩
  exact hbegins.declines numeralViews_settled (List.all_eq_true.1 numeralRules_decline r hr)

/-! ### Literals that are read -/

/-- In front of this text, behind any space, a literal of this value is read and `rest` is left; if `rest` is
no more than space then the literal is the whole expression. -/
structure ReadsLiteral (text rest : List Char) (value : Literal) : Prop where
  here (f : Frame) (saved : List LexicalState) {space : List Char} (hspace : Trivia space) :
    Reads f (.before saved (space ++ text)) literal?
      (fun o => ∃ e, o = some e ∧ ∃ offset, e = .mk (.literal value) offset f.module) (.behind saved rest)
  whole (hrest : Trivia rest) {space : List Char} (hspace : Trivia space) {config : Config}
    (hdepth : 1 ≤ config.maxDepth) :
    ∃ e, parseExpression (String.ofList (space ++ text)) config = .ok e ∧ e.kind = .literal value

/-- A numeral with a value is read as a literal of that value. -/
theorem readsLiteral_of_value {numeral : Numeral} {value : Literal} (hbegins : BeginsNumeral text)
    (hscan : scanNumeral text = .found numeral rest) (hvalue : numeral.value = .ok value) :
    ReadsLiteral text rest value := by
  have htakes {space : List Char} (hspace : Trivia space) :
      Takes .expression (space ++ text) Terminal.numericLiteral rest [.number value] := by
    have hitems : Terminal.numericLiteral.items = [.capture .number] := by rfl
    apply takes_of_accepts rfl rfl rfl rfl hspace hbegins.settled
    rw [hitems]
    exact Scan.accepts_number hscan hvalue (Scan.accepts_nil rest)
  constructor
  · exact fun f saved space hspace => reads_literal_number (htakes hspace)
  · intro hrest space hspace config hdepth
    have hdeclines := hbegins.declines hspace
    have hbehind : Behind (Layer.sequence.rank + 1) rest := behind_space hrest
    have hvalue (f : Frame) (n : Nat) : Reads f (.before [] (space ++ text)) (valueExpr (singleWithin n))
        (fun e => ∃ offset, e = .mk (.literal value) offset f.module) (.behind [] rest) := by
      apply reads_valueExpr_primary (fun r hr => hdeclines r (List.mem_append_right _ hr))
      · exact reads_primary_number (htakes hspace)
      · rintro _ ⟨offset, rfl⟩ axis test predicates hkind
        cases hkind
      · exact hbehind.declines (by decide)
    have hread (text' : String) (htext : text'.toList = space ++ text) :
        ∃ e, parseExpression text' config = .ok e ∧ e.kind = .literal value := by
      refine parseExpression_of_reads hrest ?_
      rw [htext]
      apply reads_expr_of_value (f := wholeFrame text' config) hdepth
      · exact fun r hr => hdeclines r (List.mem_append_left _ (List.mem_append_left _ hr))
      · exact fun r hr => hdeclines r (List.mem_append_left _ (List.mem_append_right _ hr))
      · exact hbehind
      · refine reads_weaken (hvalue _ _) ?_
        rintro _ ⟨offset, rfl⟩
        rfl
    exact hread _ String.toList_ofList

/-! ### Literals that are refused -/

/-- The parser stops with an error of this code, where `place` is left of a text of this size. -/
def StopsWith (code : String) (size : Nat) (place : List Char) (e : Stop) : Prop :=
  ∃ d, e = .fatal d ∧ d.isError ∧ d.code.text = code ∧ d.offset = size - byteLength place

/-- For what stands at the beginning of this text, behind any space, the parser stops at `place`: where it
looks for a literal, and in the text as a whole expression. -/
structure RefusesLiteral (code : String) (text place : List Char) : Prop where
  here (f : Frame) (saved : List LexicalState) {space : List Char} (hspace : Trivia space) :
    Stops f (.before saved (space ++ text)) literal? (StopsWith code f.size place)
  whole {space : List Char} (hspace : Trivia space) {config : Config} (hdepth : 1 ≤ config.maxDepth) :
    ∃ e, parseExpression (String.ofList (space ++ text)) config = .error e ∧ e.diagnostic.isError ∧
      e.diagnostic.code.text = code ∧
      e.diagnostic.offset = byteLength (space ++ text) - byteLength place

/-- A number that stops the matcher stops the rule of numbers. -/
theorem stops_eat_numericLiteral {f : Frame} {saved : List LexicalState} {E : Stop → Prop}
    (hspace : Trivia space) (hset : startsTrivia true text = false)
    (h : ∀ m : Matcher, m.cursor.rest = text → m.cursor.size = f.size →
      ∃ d m', Scan.number m = .error d m' ∧ E (.fatal d)) :
    Stops f (.before saved (space ++ text)) (eat Terminal.numericLiteral) E := by
  refine stops_eat rfl rfl rfl fun m hm hrest hsize => ?_
  have hskip : Scan.skipTrivia m = .ok () (m.moveTo text) := by
    refine Scan.skipTrivia_found ?_
    rw [hm, hrest]
    exact scanTrivia_append hspace hset
  have hitems : Terminal.numericLiteral.items = [.capture .number] := by rfl
  obtain ⟨d, m', hnumber, hd⟩ := h (m.moveTo text) rfl hsize
  have hplaceholder : Scan.placeholder .number (m.moveTo text) = .error d m' := Scan.bind_error hnumber
  refine ⟨d, m', ?_, hd⟩
  rw [Scan.bind_ok hskip, hitems, Scan.items]
  exact Scan.bind_error hplaceholder

/-- What the matcher refuses as a number the parser refuses as a literal. -/
theorem refusesLiteral_of_number {code : String} (hbegins : BeginsNumeral text)
    (h : ∀ m : Matcher, m.cursor.rest = text →
      ∃ d m', Scan.number m = .error d m' ∧ d.isError ∧ d.code.text = code ∧
        d.offset = m.cursor.size - byteLength place) : RefusesLiteral code text place := by
  have hliteral (f : Frame) (saved : List LexicalState) {space : List Char} (hspace : Trivia space) :
      Stops f (.before saved (space ++ text)) literal? (StopsWith code f.size place) := by
    refine (stops_eat_numericLiteral hspace hbegins.settled fun m hrest hsize => ?_).bind
    obtain ⟨d, m', hnumber, herror, hcode, hoffset⟩ := h m hrest
    exact ⟨d, m', hnumber, d, rfl, herror, hcode, by rw [hoffset, hsize]⟩
  refine ⟨hliteral, fun {space} hspace config hdepth => ?_⟩
  have hdeclines := hbegins.declines hspace
  have hvalue (f : Frame) (n : Nat) : Stops f (.before [] (space ++ text)) (valueExpr (singleWithin n))
      (StopsWith code f.size place) := by
    refine (passes_valueExpr fun r hr => hdeclines r (List.mem_append_right _ hr)).stops ?_
    have hprimary : Stops f (.before [] (space ++ text)) (primary (singleWithin n))
        (StopsWith code f.size place) := (hliteral f [] hspace).bind
    exact hprimary.bind.bind.bind
  have hstop (text' : String) (htext : text'.toList = space ++ text) :
      ∃ stop s, parseExpression text' config = .error (parseError stop s) ∧
        StopsWith code (byteLength (space ++ text)) place stop := by
    have hsize : (wholeFrame text' config).size = byteLength (space ++ text) := by
      rw [← htext]
      rfl
    refine parseExpression_of_stops ?_
    rw [htext, ← hsize]
    apply stops_expr_of_value (f := wholeFrame text' config) hdepth
    · exact fun r hr => hdeclines r (List.mem_append_left _ (List.mem_append_left _ hr))
    · exact fun r hr => hdeclines r (List.mem_append_left _ (List.mem_append_right _ hr))
    · exact hvalue _ _
  obtain ⟨_, s, hparse, d, rfl, herror, hcode, hoffset⟩ := hstop _ String.toList_ofList
  exact ⟨_, hparse, herror, hcode, hoffset⟩

/-- A numeral without a value is refused where it begins. -/
theorem refusesLiteral_of_overflow {numeral : Numeral} {overflow : Numeral.Overflow}
    (hbegins : BeginsNumeral text) (hscan : scanNumeral text = .found numeral rest)
    (hvalue : numeral.value = .error overflow) : RefusesLiteral "XPDY0130" text text := by
  refine refusesLiteral_of_number hbegins fun m hrest => ?_
  have hnumber : Scan.number m =
      .error (.error .implementationLimit m.cursor.pos overflow.message) (m.moveTo rest) := by
    unfold Scan.number
    rw [Scan.lexeme_found (hrest ▸ hscan)]
    dsimp only
    rw [hvalue]
  refine ⟨_, _, hnumber, rfl, rfl, ?_⟩
  rw [← hrest]
  rfl

theorem refusesLiteral_of_faulty (hbegins : BeginsNumeral text)
    (hscan : scanNumeral text = .faulty .malformedNumber place) :
    RefusesLiteral "XPST0003" text place := by
  refine refusesLiteral_of_number hbegins fun m hrest => ?_
  have hnumber : Scan.number m =
      .error (LexicalFault.diagnostic .malformedNumber (m.cursor.offsetOf place)) m := by
    unfold Scan.number Scan.lexeme
    rw [hrest, hscan]
  exact ⟨_, _, hnumber, rfl, rfl, rfl⟩

/-! ### Integers -/

/-- Digits alone, however many and whatever zeros they begin with, are scanned up to their end and read as
the number that they write: as an integer of 63 bits, or else as a decimal of 96, or else they are refused
where they begin. A letter or an underscore behind them is refused where it stands, unless it belongs to an
exponent. -/
theorem integer_literals_are_exact (digits rest : List Char) (hne : digits ≠ [])
    (hdigits : ∀ c ∈ digits, c.isDigit) {n : Nat} (hn : placeValue 10 Decimal.digitValue digits = n) :
    (endsInteger rest →
      scanNumeral (digits ++ rest) = .found ⟨digits, none, none⟩ rest ∧
      (n ≤ 2 ^ 63 - 1 → ReadsLiteral (digits ++ rest) rest (.integer n)) ∧
      (2 ^ 63 ≤ n ∧ n ≤ 2 ^ 96 - 1 → ReadsLiteral (digits ++ rest) rest (.decimal ⟨n, 0⟩)) ∧
      (2 ^ 96 - 1 < n → RefusesLiteral "XPDY0130" (digits ++ rest) (digits ++ rest))) ∧
    (rest.head?.any isNameStart → ¬BeginsExponent rest →
      RefusesLiteral "XPST0003" (digits ++ rest) rest) := by
  have hbegins : BeginsNumeral (digits ++ rest) := beginsNumeral_digits hne hdigits rest
  have hvalue := Numeral.value_whole hn
  constructor
  · intro hends
    have hscan := scanNumeral_append hne hdigits hends
    refine ⟨hscan, fun hsmall => ?_, fun ⟨hlarge, hfits⟩ => ?_, fun hover => ?_⟩
    · rw [if_pos hsmall] at hvalue
      exact readsLiteral_of_value hbegins hscan hvalue
    · rw [if_neg (by omega), if_pos (by omega)] at hvalue
      exact readsLiteral_of_value hbegins hscan hvalue
    · rw [if_neg (by omega), if_neg (by omega)] at hvalue
      exact refusesLiteral_of_overflow hbegins hscan hvalue
  · intro hletter hexponent
    have hplain : ∀ c ∈ rest.head?, c.isDigit = false ∧ c ≠ '.' := by
      intro c hc
      rw [show rest.head? = some c from hc] at hletter
      refine ⟨Bool.eq_false_iff.2 fun hdigit => ?_, ?_⟩
      · rw [Option.any_some, isNameStart_eq_false_of_isDigit hdigit] at hletter
        cases hletter
      · rintro rfl
        exact absurd hletter (by decide)
    have hscan := scanNumeral_of_mantissa (scanMantissa_whole hne hdigits hplain) hexponent
    rw [if_pos hletter] at hscan
    exact refusesLiteral_of_faulty hbegins hscan

/-- Zeros in front, the first integer that is a decimal, the first that is neither, and a letter behind. -/
theorem integer_literals_at_their_limits :
    ReadsLiteral "0007".toList [] (.integer 7) ∧
      ReadsLiteral "9223372036854775808".toList [] (.decimal ⟨2 ^ 63, 0⟩) ∧
      RefusesLiteral "XPDY0130" "79228162514264337593543950336".toList
        "79228162514264337593543950336".toList ∧
      RefusesLiteral "XPST0003" "12ex".toList "ex".toList := by
  have hend : endsInteger [] := fun _ h => nomatch h
  have hsmall := (integer_literals_are_exact "0007".toList [] (by decide)
    (List.all_eq_true.mp (by decide)) (n := 7) (by decide)).1 hend
  have hlarge := (integer_literals_are_exact "9223372036854775808".toList [] (by decide)
    (List.all_eq_true.mp (by decide)) (n := 2 ^ 63) (by decide)).1 hend
  have hover := (integer_literals_are_exact "79228162514264337593543950336".toList [] (by decide)
    (List.all_eq_true.mp (by decide)) (n := 2 ^ 96) (by decide)).1 hend
  have hexponent : ¬BeginsExponent "ex".toList := by
    rintro ⟨mark, sign, digit, tail, htext, -, rfl | rfl | rfl, hdigit⟩ <;> cases htext
    exact absurd hdigit (by decide)
  have hletter := (integer_literals_are_exact "12".toList "ex".toList (by decide)
    (List.all_eq_true.mp (by decide)) rfl).2 (by decide) hexponent
  exact ⟨hsmall.2.1 (by decide), hlarge.2.2.1 (by decide), hover.2.2.2 (by decide), hletter⟩

/-! ### Decimals -/

/-- Behind the digits of a decimal nothing makes it a longer number, and no name begins. -/
def endsDecimal (rest : List Char) : Prop :=
  ∀ c ∈ rest.head?, c.isDigit = false ∧ isNameStart c = false

open Decimal in
/-- Digits with a point among them, however many, are scanned up to their end. If the number that they write
has a mantissa and a scale within the limits of decimals then it is read as it is. Otherwise it is rounded to
as many places, at most 28, as leave its mantissa within 96 bits, and it is refused where it begins if that
is not possible even without places. -/
theorem decimal_literals_are_rounded (whole fraction rest : List Char) (hne : whole ++ fraction ≠ [])
    (hw : ∀ c ∈ whole, c.isDigit) (hf : ∀ c ∈ fraction, c.isDigit) (hends : endsDecimal rest)
    {r : ℚ} (hr : written whole fraction = r) {text : List Char}
    (htext : whole ++ '.' :: (fraction ++ rest) = text) :
    scanNumeral text = .found ⟨whole, some fraction, none⟩ rest ∧
      (∀ d : Decimal, d.Fits → d.toRat = r →
        ∃ d' : Decimal, ReadsLiteral text rest (.decimal d') ∧ d'.toRat = r) ∧
      (CanKeep r 0 → ∃ d : Decimal, ReadsLiteral text rest (.decimal d) ∧ d.Fits ∧
        d.toRat = rounded (keptPlaces r) r) ∧
      (¬CanKeep r 0 → RefusesLiteral "XPDY0130" text text) := by
  subst htext
  have hbegins : BeginsNumeral (whole ++ '.' :: (fraction ++ rest)) := beginsNumeral_fraction hw hf hne rest
  have hname : rest.head?.any isNameStart = false := by
    cases rest with
    | nil => rfl
    | cons c cs => exact (hends c rfl).2
  have hscan : scanNumeral (whole ++ '.' :: (fraction ++ rest)) = .found ⟨whole, some fraction, none⟩ rest := by
    have hmantissa := scanMantissa_fraction hw hf hne fun c hc => (hends c hc).1
    rw [scanNumeral_of_mantissa hmantissa (not_beginsExponent fun c hc => (hends c hc).2), if_neg]
    rw [hname]
    exact Bool.false_ne_true
  have hrounds : Rounds r (ofParts whole fraction) := hr ▸ rounds_ofParts whole hf
  have hvalue := Numeral.value_fraction whole fraction
  have hread (hkeep : CanKeep r 0) : ∃ d : Decimal, ReadsLiteral (whole ++ '.' :: (fraction ++ rest)) rest
      (.decimal d) ∧ d.Fits ∧ d.toRat = rounded (keptPlaces r) r := by
    cases hparts : ofParts whole fraction with
    | none =>
      rw [hparts] at hrounds
      exact absurd hkeep hrounds
    | some d =>
      rw [hparts] at hrounds hvalue
      exact ⟨d, readsLiteral_of_value hbegins hscan hvalue, hrounds.2⟩
  refine ⟨hscan, fun d hd hdr => ?_, hread, fun hover => ?_⟩
  · have hkeep : CanKeep r d.scale := hdr ▸ hd.canKeep
    have hnonneg : 0 ≤ r := hdr ▸ d.toRat_nonneg
    obtain ⟨d', hliteral, -, hrounded⟩ := hread (hkeep.of_le hnonneg (Nat.zero_le _))
    have hexact : rounded (keptPlaces r) r = r := by
      rw [← hdr] at hkeep ⊢
      exact rounded_toRat (le_keptPlaces hd.scale_le hkeep)
    exact ⟨d', hliteral, hrounded.trans hexact⟩
  · cases hparts : ofParts whole fraction with
    | none =>
      rw [hparts] at hvalue
      exact refusesLiteral_of_overflow hbegins hscan hvalue
    | some d =>
      rw [hparts] at hrounds
      exact absurd hrounds.1 hover

/-- A decimal without digits in front of the point is read as it is; one that would need 97 bits is refused. -/
theorem decimal_literals_at_their_limits :
    (∃ d : Decimal, ReadsLiteral ".250".toList [] (.decimal d) ∧ d.toRat = 1 / 4) ∧
      RefusesLiteral "XPDY0130" "79228162514264337593543950335.5".toList
        "79228162514264337593543950335.5".toList := by
  have hend : endsDecimal [] := fun _ h => nomatch h
  have hquarter : Decimal.written [] "250".toList = 1 / 4 := by
    have hdigits : placeValue 10 Decimal.digitValue ([] ++ "250".toList) = 250 := by decide
    rw [Decimal.written, hdigits, show "250".toList.length = 3 from rfl]
    norm_num
  have hlarge : Decimal.written "79228162514264337593543950335".toList ['5'] = 2 ^ 96 - 1 / 2 := by
    have hdigits : placeValue 10 Decimal.digitValue ("79228162514264337593543950335".toList ++ ['5']) =
        10 * 2 ^ 96 - 5 := by decide
    rw [Decimal.written, hdigits]
    norm_num
  have hover : ¬Decimal.CanKeep (2 ^ 96 - 1 / 2) 0 := by
    unfold Decimal.CanKeep
    norm_num
  have hfits : Decimal.Fits ⟨25, 2⟩ := ⟨by norm_num, by norm_num⟩
  have hvalue : Decimal.toRat ⟨25, 2⟩ = 1 / 4 := by
    unfold Decimal.toRat
    norm_num
  have hexact := (decimal_literals_are_rounded [] "250".toList [] (by decide) (fun _ h => nomatch h)
    (List.all_eq_true.mp (by decide)) hend hquarter rfl).2.1 _ hfits hvalue
  have hrefused := (decimal_literals_are_rounded "79228162514264337593543950335".toList ['5'] []
    (by decide) (List.all_eq_true.mp (by decide)) (List.all_eq_true.mp (by decide)) hend hlarge rfl).2.2.2 hover
  exact ⟨hexact, hrefused⟩

/-- What is left of a number with more than 28 places may be nothing. -/
theorem small_decimal_is_read_as_zero :
    ∃ d : Decimal, ReadsLiteral "0.00000000000000000000000000001".toList [] (.decimal d) ∧
      d.toRat = 0 ∧ Decimal.written ['0'] "00000000000000000000000000001".toList ≠ 0 := by
  rw [show "00000000000000000000000000001".toList = List.replicate 28 '0' ++ ['1'] from String.toList_ofList,
    show "0.00000000000000000000000000001".toList = '0' :: '.' :: (List.replicate 28 '0' ++ ['1']) from
      String.toList_ofList]
  have hbegins : BeginsNumeral ('0' :: '.' :: (List.replicate 28 '0' ++ ['1'])) :=
    beginsNumeral_digits (List.cons_ne_nil '0' []) (List.all_eq_true.mp (by decide)) _
  have hscan : scanNumeral ('0' :: '.' :: (List.replicate 28 '0' ++ ['1'])) =
      .found ⟨['0'], some (List.replicate 28 '0' ++ ['1']), none⟩ [] := by rfl
  have hread : ReadsLiteral ('0' :: '.' :: (List.replicate 28 '0' ++ ['1'])) [] (.decimal ⟨0, 0⟩) :=
    readsLiteral_of_value hbegins hscan (by rfl)
  refine ⟨_, hread, by simp [Decimal.toRat], ?_⟩
  have hdigits : placeValue 10 Decimal.digitValue (['0'] ++ (List.replicate 28 '0' ++ ['1'])) = 1 := by
    decide
  rw [Decimal.written, hdigits]
  norm_num

end XQuerySyntax
