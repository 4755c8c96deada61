import XQuerySyntax.Lexeme.Name
import XQuerySyntax.Lexeme.Numeral
import XQuerySyntax.Lexeme.Reference
import XQuerySyntax.Lexeme.Trivia

/-! Lexemes as they are written, and what the scanners make of them. A scanner that is given a lexeme
and a text that does not continue it finds that lexeme and leaves that text. -/

namespace XQuerySyntax

/-! ### Space between tokens -/

/-- The rest of a comment through its closer, with `depth` comments open inside it. -/
inductive CommentTail : Nat → List Char → Prop where
  | close : CommentTail 0 [':', ')']
  | leave {depth : Nat} {text : List Char} :
      CommentTail depth text → CommentTail (depth + 1) (':' :: ')' :: text)
  | enter {depth : Nat} {text : List Char} :
      CommentTail (depth + 1) text → CommentTail depth ('(' :: ':' :: text)
  | char {depth : Nat} {text : List Char} (c : Char)
      (hopen : ∀ rest, c :: text ≠ '(' :: ':' :: rest)
      (hclose : ∀ rest, c :: text ≠ ':' :: ')' :: rest) :
      CommentTail depth text → CommentTail depth (c :: text)

/-- Blanks and nested comments. -/
inductive Trivia : List Char → Prop where
  | nil : Trivia []
  | blank {text : List Char} (c : Char) (hc : isBlank c) : Trivia text → Trivia (c :: text)
  | comment {body text : List Char} :
      CommentTail 0 body → Trivia text → Trivia ('(' :: ':' :: (body ++ text))

theorem CommentTail.ne_nil {depth : Nat} {text : List Char} (h : CommentTail depth text) :
    text ≠ [] := by
  cases h <;> exact List.cons_ne_nil _ _

theorem skipCommentBody_append {depth : Nat} {body : List Char} (h : CommentTail depth body)
    (rest : List Char) : skipCommentBody depth (body ++ rest) = some rest := by
  induction h with
  | close => rfl
  | leave _ ih => exact ih
  | enter _ ih => exact ih
  | @char depth text c hopen hclose htail ih =>
    -- The character behind `c` belongs to the comment, so nothing in `rest` can open or close one.
    obtain ⟨d, text', rfl⟩ := List.exists_cons_of_ne_nil htail.ne_nil
    rw [List.cons_append, List.cons_append] at *
    rw [skipCommentBody]
    · exact ih
    · rintro cs rfl hcs
      obtain ⟨rfl, -⟩ := List.cons.inj hcs
      exact hopen _ rfl
    · rintro cs - rfl hcs
      obtain ⟨rfl, -⟩ := List.cons.inj hcs
      exact hclose _ rfl
    · rintro n cs - rfl hcs
      obtain ⟨rfl, -⟩ := List.cons.inj hcs
      exact hclose _ rfl

theorem scanTrivia_eq (comments : Bool) (text : List Char) :
    scanTrivia comments text =
      if comments && startsComment (text.dropWhile isBlank) then
        match skipCommentBody 0 ((text.dropWhile isBlank).drop 2) with
        | some rest => scanTrivia comments rest
        | none => .faulty (.unterminated "comment") (text.dropWhile isBlank)
      else .found () (text.dropWhile isBlank) := by
  rw [scanTrivia]
  dsimp only
  split
  · split <;> rename_i hs <;> rw [hs]
  · rfl

theorem scanTrivia_blank {c : Char} (hc : isBlank c) (comments : Bool) (text : List Char) :
    scanTrivia comments (c :: text) = scanTrivia comments text := by
  rw [scanTrivia_eq, scanTrivia_eq comments text, List.dropWhile_cons_of_pos hc]

/-- Where neither a blank nor a comment begins there is nothing to skip. -/
theorem scanTrivia_none {comments : Bool} {text : List Char}
    (h : startsTrivia comments text = false) : scanTrivia comments text = .found () text := by
  obtain ⟨hblank, hcomment⟩ := Bool.or_eq_false_iff.1 h
  have hdrop : text.dropWhile isBlank = text := by
    cases text with
    | nil => rfl
    | cons c cs => exact List.dropWhile_cons_of_neg (by simpa using hblank)
  rw [scanTrivia_eq, hdrop, hcomment]
  rfl

theorem scanTrivia_append {space rest : List Char} (h : Trivia space)
    (hr : startsTrivia true rest = false) : scanTrivia true (space ++ rest) = .found () rest := by
  induction h with
  | nil => exact scanTrivia_none hr
  | blank c hc _ ih => rw [List.cons_append, scanTrivia_blank hc, ih]
  | @comment body text hbody _ ih =>
    have hdrop : ('(' :: ':' :: (body ++ text) ++ rest).dropWhile isBlank =
        '(' :: ':' :: (body ++ (text ++ rest)) := by
      rw [List.cons_append, List.cons_append, List.append_assoc]
      exact List.dropWhile_cons_of_neg (by decide)
    rw [scanTrivia_eq, hdrop]
    change (match skipCommentBody 0 (body ++ (text ++ rest)) with
      | some rest => scanTrivia true rest
      | none => _) = _
    rw [skipCommentBody_append hbody]
    exact ih

/-- Space between tokens begins with a blank or the opener of a comment. -/
theorem Trivia.startsTrivia {space : List Char} (h : Trivia space) (hne : space ≠ [])
    (rest : List Char) : startsTrivia true (space ++ rest) = true := by
  cases h with
  | nil => exact absurd rfl hne
  | blank c hc _ =>
    unfold XQuerySyntax.startsTrivia
    rw [List.cons_append, List.head?_cons, Option.any_some, hc]
    rfl
  | comment _ _ => rfl

/-! ### Names -/

/-- A simple name: a name-start character and name characters behind it. -/
def isName : List Char → Bool
  | [] => false
  | c :: cs => isNameStart c && cs.all isNameChar

/-- The text does not go on with a name character. -/
def endsName (rest : List Char) : Prop := ∀ c ∈ rest.head?, isNameChar c = false

theorem takeWhile_append {p : Char → Bool} {lexeme rest : List Char} (h : ∀ c ∈ lexeme, p c)
    (hr : ∀ c ∈ rest.head?, p c = false) :
    (lexeme ++ rest).takeWhile p = lexeme ∧ (lexeme ++ rest).dropWhile p = rest := by
  induction lexeme with
  | nil =>
    cases rest with
    | nil => exact ⟨rfl, rfl⟩
    | cons c cs =>
      have hc : p c = false := hr c rfl
      exact ⟨List.takeWhile_cons_of_neg (by simp [hc]), List.dropWhile_cons_of_neg (by simp [hc])⟩
  | cons c cs ih =>
    obtain ⟨htake, hdrop⟩ := ih fun d hd => h d (List.mem_cons_of_mem c hd)
    have hc : p c = true := h c List.mem_cons_self
    rw [List.cons_append, List.takeWhile_cons_of_pos hc, List.dropWhile_cons_of_pos hc]
    exact ⟨congrArg (c :: ·) htake, hdrop⟩

theorem scanName_append {name rest : List Char} (h : isName name) (hr : endsName rest) :
    scanName (name ++ rest) = .found (String.ofList name) rest := by
  cases name with
  | nil => cases h
  | cons c cs =>
    obtain ⟨hc, hcs⟩ := Bool.and_eq_true_iff.1 h
    obtain ⟨htake, hdrop⟩ := takeWhile_append (List.all_eq_true.1 hcs) hr
    rw [List.cons_append, scanName, if_pos hc, htake, hdrop]

theorem scanQualifiedName_append {name rest : List Char} (h : isName name) (hr : endsName rest)
    (hcolon : ∀ c ∈ rest.head?, c ≠ ':') :
    scanQualifiedName (name ++ rest) = .found ⟨none, String.ofList name⟩ rest := by
  rw [scanQualifiedName, scanName_append h hr]
  cases rest with
  | nil => rfl
  | cons c cs =>
    have hc : c ≠ ':' := hcolon c rfl
    split
    · rename_i heq
      cases heq
      exact absurd rfl hc
    · rename_i heq
      cases heq
      rfl
    · rename_i heq
      cases heq
    · rename_i heq
      cases heq

theorem scanQualifiedName_pair {qualifier name rest : List Char} (hq : isName qualifier)
    (h : isName name) (hr : endsName rest) :
    scanQualifiedName (qualifier ++ ':' :: (name ++ rest)) =
      .found ⟨some (String.ofList qualifier), String.ofList name⟩ rest := by
  have hcolon : endsName (':' :: (name ++ rest)) := by
    rintro c ⟨⟩
    decide
  rw [scanQualifiedName, scanName_append hq hcolon]
  simp only [scanName_append h hr]

/-- A colon that no name follows does not belong to the name in front of it. -/
theorem scanQualifiedName_colon {name rest : List Char} (h : isName name) (hrest : scanName rest = .absent) :
    scanQualifiedName (name ++ ':' :: rest) = .found ⟨none, String.ofList name⟩ (':' :: rest) := by
  have hcolon : endsName (':' :: rest) := by
    rintro _ ⟨⟩
    decide
  rw [scanQualifiedName, scanName_append h hcolon]
  simp only [hrest]

/-! ### Numbers -/

theorem scanDigits_append {digits rest : List Char} (hd : ∀ c ∈ digits, c.isDigit)
    (hr : ∀ c ∈ rest.head?, c.isDigit = false) : scanDigits (digits ++ rest) = (digits, rest) := by
  obtain ⟨htake, hdrop⟩ := takeWhile_append hd hr
  rw [scanDigits, htake, hdrop]

/-- An exponent with all that belongs to it stands here. -/
def BeginsExponent (rest : List Char) : Prop :=
  ∃ (mark : Char) (sign : List Char) (digit : Char) (tail : List Char),
    rest = mark :: (sign ++ digit :: tail) ∧ (mark = 'e' ∨ mark = 'E') ∧
    (sign = [] ∨ sign = ['+'] ∨ sign = ['-']) ∧ digit.isDigit

theorem scanExponent_of_not {rest : List Char} (h : ¬BeginsExponent rest) :
    scanExponent rest = (none, rest) := by
  cases rest with
  | nil => rfl
  | cons mark rest =>
    unfold scanExponent
    dsimp only
    split
    · rename_i hmark
      have hnone (sign left : List Char) (hrest : rest = sign ++ left)
          (hsign : sign = [] ∨ sign = ['+'] ∨ sign = ['-']) : (scanDigits left).1 = [] := by
        cases left with
        | nil => rfl
        | cons digit tail =>
          refine List.takeWhile_cons_of_neg fun hdigit => h ?_
          exact ⟨mark, sign, digit, tail, by rw [hrest], hmark, hsign, hdigit⟩
      split
      · rfl
      · rename_i hsome heq
        -- What stands behind the sign is the rest of the text in one of three ways.
        have hdigits := congrArg Prod.fst heq
        split at hdigits
        · exact absurd (hdigits.symm.trans (hnone ['+'] _ rfl (.inr (.inl rfl)))) hsome
        · exact absurd (hdigits.symm.trans (hnone ['-'] _ rfl (.inr (.inr rfl)))) hsome
        · exact absurd (hdigits.symm.trans (hnone [] _ rfl (.inl rfl))) hsome
    · rfl

/-- Behind a mantissa without an exponent the number ends, and no name may begin. -/
theorem scanNumeral_of_mantissa {text whole rest : List Char} {fraction : Option (List Char)}
    (h : scanMantissa text = some (whole, fraction, rest)) (hexponent : ¬BeginsExponent rest) :
    scanNumeral text =
      if rest.head?.any isNameStart then .faulty .malformedNumber rest
      else .found ⟨whole, fraction, none⟩ rest := by
  unfold scanNumeral
  rw [h]
  dsimp only
  rw [scanExponent_of_not hexponent]

theorem scanMantissa_whole {digits rest : List Char} (hne : digits ≠ []) (hd : ∀ c ∈ digits, c.isDigit)
    (hr : ∀ c ∈ rest.head?, c.isDigit = false ∧ c ≠ '.') :
    scanMantissa (digits ++ rest) = some (digits, none, rest) := by
  unfold scanMantissa
  rw [scanDigits_append hd fun c hc => (hr c hc).1]
  cases digits with
  | nil => exact absurd rfl hne
  | cons d ds =>
    cases rest with
    | nil => rfl
    | cons c cs =>
      have hdot : c ≠ '.' := (hr c rfl).2
      split <;> rename_i heq <;> simp_all

/-- Behind the digits of an integer nothing makes it a longer number, and no name begins. -/
def endsInteger (rest : List Char) : Prop :=
  ∀ c ∈ rest.head?, c.isDigit = false ∧ c ≠ '.' ∧ isNameStart c = false

theorem not_beginsExponent {rest : List Char} (h : ∀ c ∈ rest.head?, isNameStart c = false) :
    ¬BeginsExponent rest := by
  rintro ⟨mark, sign, digit, tail, rfl, hmark, -⟩
  have hstart : isNameStart mark = false := h mark rfl
  rcases hmark with rfl | rfl <;> exact absurd hstart (by decide)

theorem scanNumeral_append {digits rest : List Char} (hne : digits ≠ [])
    (hd : ∀ c ∈ digits, c.isDigit) (hr : endsInteger rest) :
    scanNumeral (digits ++ rest) = .found ⟨digits, none, none⟩ rest := by
  have hmantissa := scanMantissa_whole hne hd fun c hc => ⟨(hr c hc).1, (hr c hc).2.1⟩
  have hname : ∀ c ∈ rest.head?, isNameStart c = false := fun c hc => (hr c hc).2.2
  rw [scanNumeral_of_mantissa hmantissa (not_beginsExponent hname), if_neg]
  cases rest with
  | nil => exact Bool.false_ne_true
  | cons c cs => exact Bool.eq_false_iff.1 (hname c rfl)

theorem Numeral.value_integer {digits : List Char}
    (h : Decimal.ofDigits digits ≤ Numeral.maxInteger) :
    Numeral.value ⟨digits, none, none⟩ = .ok (.integer (Decimal.ofDigits digits)) := by
  change (if Decimal.ofDigits digits ≤ Numeral.maxInteger then _ else _) = _
  rw [if_pos h]

/-! ### Strings -/

/-- The named references and the characters that they stand for. -/
def namedReferences : List (String × Char) :=
  [("lt", '<'), ("gt", '>'), ("amp", '&'), ("quot", '"'), ("apos", '\'')]

theorem scanReference_named {name : String} {c : Char} (h : (name, c) ∈ namedReferences)
    (rest : List Char) : scanReference ('&' :: (name.toList ++ ';' :: rest)) = .found c rest := by
  simp only [namedReferences, List.mem_cons, List.not_mem_nil, or_false, Prod.mk.injEq] at h
  rcases h with ⟨rfl, rfl⟩ | ⟨rfl, rfl⟩ | ⟨rfl, rfl⟩ | ⟨rfl, rfl⟩ | ⟨rfl, rfl⟩ <;> rfl

/-- How the characters of a string may be written between quotes: as themselves, a quote doubled, or
as a named reference. -/
inductive StringBody (quote : Char) : List Char → List Char → Prop where
  | nil : StringBody quote [] []
  | plain {value text : List Char} (c : Char) (hquote : c ≠ quote) (hand : c ≠ '&') :
      StringBody quote value text → StringBody quote (c :: value) (c :: text)
  | doubled {value text : List Char} :
      StringBody quote value text → StringBody quote (quote :: value) (quote :: quote :: text)
  | reference {value text : List Char} {name : String} {c : Char}
      (h : (name, c) ∈ namedReferences) :
      StringBody quote value text →
      StringBody quote (c :: value) ('&' :: (name.toList ++ ';' :: text))

theorem scanStringBody_plain {quote c : Char} (hquote : c ≠ quote) (hand : c ≠ '&') (text : List Char) :
    scanStringBody quote (c :: text) = (scanStringBody quote text).map (c :: ·) := by
  rw [scanStringBody.eq_def]
  dsimp only
  rw [if_neg hand, if_neg hquote]

theorem scanStringBody_doubled {quote : Char} (hquote : quote ≠ '&') (text : List Char) :
    scanStringBody quote (quote :: quote :: text) = (scanStringBody quote text).map (quote :: ·) := by
  rw [scanStringBody.eq_def]
  dsimp only
  rw [if_neg hquote, if_pos rfl, if_pos rfl]

theorem scanStringBody_reference {quote c : Char} {text rest : List Char}
    (h : scanReference ('&' :: text) = .found c rest) :
    scanStringBody quote ('&' :: text) = (scanStringBody quote rest).map (c :: ·) := by
  rw [scanStringBody.eq_def]
  dsimp only
  rw [if_pos rfl]
  split <;> rename_i heq <;> rw [h] at heq <;> cases heq
  rfl

/-- A quote that no other follows ends the literal. -/
theorem scanStringBody_end {quote : Char} (hquote : quote ≠ '&') {rest : List Char}
    (hr : ∀ c ∈ rest.head?, c ≠ quote) : scanStringBody quote (quote :: rest) = .found [] rest := by
  rw [scanStringBody.eq_def]
  dsimp only
  rw [if_neg hquote, if_pos rfl]
  cases rest with
  | nil => rfl
  | cons c cs =>
    have hc : c ≠ quote := hr c rfl
    exact if_neg hc

theorem scanStringBody_append {quote : Char} (hquote : quote ≠ '&') {value body rest : List Char}
    (h : StringBody quote value body) (hr : ∀ c ∈ rest.head?, c ≠ quote) :
    scanStringBody quote (body ++ quote :: rest) = .found value rest := by
  induction h with
  | nil => exact scanStringBody_end hquote hr
  | plain c hc hand _ ih =>
    rw [List.cons_append, scanStringBody_plain hc hand, ih]
    rfl
  | doubled _ ih =>
    rw [List.cons_append, List.cons_append, scanStringBody_doubled hquote, ih]
    rfl
  | @reference value text name c hname _ ih =>
    have hreference := scanReference_named hname (text ++ quote :: rest)
    rw [List.cons_append, List.append_assoc, List.cons_append, scanStringBody_reference hreference, ih]
    rfl

theorem scanStringLiteral_append {quote : Char} (hquote : quote = '"' ∨ quote = '\'')
    {value body rest : List Char} (h : StringBody quote value body)
    (hr : ∀ c ∈ rest.head?, c ≠ quote) :
    scanStringLiteral (quote :: (body ++ quote :: rest)) = .found (String.ofList value) rest := by
  have hand : quote ≠ '&' := by
    rcases hquote with rfl | rfl <;> decide
  rw [scanStringLiteral, if_pos hquote, scanStringBody_append hand h hr]

end XQuerySyntax
