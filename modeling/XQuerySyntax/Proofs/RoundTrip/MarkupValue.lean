import XQuerySyntax.Proofs.RoundTrip.MarkupScan
import XQuerySyntax.Proofs.RoundTrip.Printed

/-! The tokens of markup. Between tags nothing is skipped in front of a token, and in tags only blanks;
the rules of markup are told apart by their first characters. -/

namespace XQuerySyntax

open XQuerySyntax.Parser Grammar Scan Glimpse

variable {state : LexicalState} {r : Rule} {text text' rest : List Char} {found : Captures}
  {n : SimpleName}

/-! ### Rules that are taken -/

/-- A rule is taken where the text begins with nothing that is skipped. -/
theorem takes_here (hcore : r.extension = .core) (hstate : r.states.contains state)
    (hset : startsTrivia state.skipsComments text = false)
    (h : Accepts state.skipsComments r.items false none text rest found) :
    Takes state text r rest found := by
  have hskip : (if state.skipsBlanks then scanTrivia state.skipsComments text else .found () text) =
      .found () text := by
    split
    · exact scanTrivia_none hset
    · rfl
  exact ⟨hcore, hstate, matches_of_accepts hskip h⟩

/-- A rule of the plain language, allowed in a state, that is spelled without letters and begins with
no space. -/
def IsMark (state : LexicalState) (r : Rule) (spelling : String) : Bool :=
  r.extension = .core && r.states.contains state && r.items = spelling.toList.map .char &&
    (spelling.toList.all fun c => !PatternItem.isWordChar c) &&
      spelling.toList.head?.any fun c => !isBlank c && c != '('

theorem startsTrivia_mark {c : Char} (h : !isBlank c && c != '(') (comments : Bool) (rest : List Char) :
    startsTrivia comments (c :: rest) = false := by
  simp only [Bool.and_eq_true, Bool.not_eq_true', bne_iff_ne] at h
  apply startsTrivia_cons_eq_false h.1
  rintro rest' heq
  exact h.2 (List.cons.inj heq).1

theorem startsTrivia_spelling {spelling : String} (h : IsMark state r spelling) (comments : Bool)
    (rest : List Char) : startsTrivia comments (spelling.toList ++ rest) = false := by
  simp only [IsMark, Bool.and_eq_true] at h
  obtain ⟨-, hfirst⟩ := h
  cases hchars : spelling.toList with
  | nil =>
    rw [hchars] at hfirst
    cases hfirst
  | cons c chars =>
    rw [hchars] at hfirst
    exact startsTrivia_mark hfirst _ _

theorem accepts_mark {spelling : String} (h : IsMark state r spelling) (comments : Bool)
    (rest : List Char) : Accepts comments r.items false none (spelling.toList ++ rest) rest [] := by
  simp only [IsMark, Bool.and_eq_true, decide_eq_true_eq] at h
  obtain ⟨⟨⟨-, hitems⟩, hsymbol⟩, -⟩ := h
  rw [hitems]
  exact accepts_symbol hsymbol

theorem allowed_mark {spelling : String} (h : IsMark state r spelling) :
    r.extension = .core ∧ r.states.contains state := by
  simp only [IsMark, Bool.and_eq_true, decide_eq_true_eq] at h
  exact h.1.1.1

theorem takes_mark (spelling : String) (h : IsMark state r spelling) (rest : List Char) :
    Takes state (spelling.toList ++ rest) r rest [] :=
  takes_here (allowed_mark h).1 (allowed_mark h).2 (startsTrivia_spelling h _ rest) (accepts_mark h _ rest)

theorem isNameChar_eq_false_of_isBlank {c : Char} (h : isBlank c) : isNameChar c = false := by
  simp only [isBlank, Bool.or_eq_true, beq_iff_eq] at h
  rcases h with ((rfl | rfl) | rfl) | rfl <;> decide

/-- A name of a tag may end here. -/
def EndsTagName (rest : List Char) : Prop :=
  ∀ c ∈ rest.head?, isBlank c ∨ c = '>' ∨ c = '/' ∨ c = '='

theorem EndsTagName.endsName (h : EndsTagName rest) : endsName rest := by
  intro c hc
  rcases h c hc with hblank | rfl | rfl | rfl
  · exact isNameChar_eq_false_of_isBlank hblank
  all_goals decide

theorem EndsTagName.noColon (h : EndsTagName rest) : ∀ c ∈ rest.head?, c ≠ ':' := by
  rintro c hc rfl
  exact absurd (h ':' hc) (by decide)

theorem accepts_tagName {comments : Bool} {parts : List PatternItem} (hend : EndsTagName text)
    (h : Accepts comments parts true none text rest found) :
    Accepts comments (.capture .qualifiedName :: parts) false none (n.chars ++ text) rest
      (.qualifiedName ⟨none, n.text⟩ :: found) :=
  accepts_qualifiedName (scanQualifiedName_append n.isName hend.endsName hend.noColon) h

/-- A start tag begins with its name. -/
theorem takes_startTag (hend : EndsTagName rest)
    (hr : r.extension = .core ∧ r.states.contains state ∧
      r.items = [.char '<', .capture .qualifiedName]) :
    Takes state ('<' :: (n.chars ++ rest)) r rest [.qualifiedName ⟨none, n.text⟩] := by
  obtain ⟨hcore, hstate, hitems⟩ := hr
  apply takes_here hcore hstate (startsTrivia_mark (by decide) _ _)
  rw [hitems]
  apply accepts_char (fun h => absurd h (by decide))
  exact accepts_tagName hend (accepts_nil rest)

theorem takes_endTag (rest : List Char) :
    Takes .content ('<' :: '/' :: (n.chars ++ '>' :: rest)) Terminal.endTag rest
      [.qualifiedName ⟨none, n.text⟩] := by
  have hend : EndsTagName ('>' :: rest) := by
    rintro _ ⟨⟩
    decide
  have hitems : Terminal.endTag.items =
      [.char '<', .char '/', .capture .qualifiedName, .gap, .char '>'] := by
    rfl
  apply takes_here rfl rfl (startsTrivia_mark (by decide) _ _)
  rw [hitems]
  apply accepts_char (fun h => absurd h (by decide))
  apply accepts_char (fun h => absurd h (by decide))
  apply accepts_tagName hend
  apply accepts_gap (scanTrivia_none (startsTrivia_mark (by decide) _ _)) (fun h => absurd h (by decide))
  exact accepts_char (fun h => absurd h (by decide)) (accepts_nil rest)

theorem scanTrivia_blanks {blanks : List Char} (hblanks : ∀ c ∈ blanks, isBlank c) (comments : Bool)
    (text : List Char) : scanTrivia comments (blanks ++ text) = scanTrivia comments text := by
  induction blanks with
  | nil => rfl
  | cons c blanks ih =>
    have hrest := ih fun d hd => hblanks d (List.mem_cons_of_mem c hd)
    rw [List.cons_append, scanTrivia_blank (hblanks c List.mem_cons_self), hrest]

/-- Blanks in front of a mark are skipped in the states that do so. -/
theorem takes_markBehind {blanks : List Char} (hblanks : ∀ c ∈ blanks, isBlank c) (spelling : String)
    (h : IsMark state r spelling) (hskips : state.skipsBlanks) (rest : List Char) :
    Takes state (blanks ++ (spelling.toList ++ rest)) r rest [] := by
  refine ⟨(allowed_mark h).1, (allowed_mark h).2, matches_of_accepts ?_ (accepts_mark h _ rest)⟩
  rw [if_pos hskips, scanTrivia_blanks hblanks]
  exact scanTrivia_none (startsTrivia_spelling h _ rest)

/-- A name is not skipped. -/
theorem SimpleName.startsTrivia_chars (n : SimpleName) (comments : Bool) (rest : List Char) :
    startsTrivia comments (n.chars ++ rest) = false := by
  have hname := n.isName
  cases hchars : n.chars with
  | nil =>
    rw [hchars] at hname
    cases hname
  | cons c chars =>
    rw [hchars] at hname
    have hc : isNameStart c := (Bool.and_eq_true_iff.1 hname).1
    apply startsTrivia_cons_eq_false (isBlank_eq_false_of_isNameStart hc)
    intro rest' heq
    rw [(List.cons.inj heq).1] at hc
    exact absurd hc (by decide)

/-- The name of an attribute, with blanks in front of it and in front of the equals sign. -/
theorem takes_attributeSign {blanks chars before : List Char} {name : LexicalName}
    (hblanks : ∀ c ∈ blanks, isBlank c) (hbefore : ∀ c ∈ before, isBlank c)
    (hset : startsTrivia false (chars ++ (before ++ '=' :: rest)) = false)
    (hscan : scanQualifiedName (chars ++ (before ++ '=' :: rest)) = .found name (before ++ '=' :: rest)) :
    Takes .tag (blanks ++ (chars ++ (before ++ '=' :: rest))) Terminal.attributeName rest
      [.qualifiedName name] := by
  have hitems : Terminal.attributeName.items = [.capture .qualifiedName, .gap, .char '='] := by
    rfl
  have hskip : scanTrivia false (blanks ++ (chars ++ (before ++ '=' :: rest))) =
      .found () (chars ++ (before ++ '=' :: rest)) := by
    rw [scanTrivia_blanks hblanks]
    exact scanTrivia_none hset
  have hsign : scanTrivia false (before ++ '=' :: rest) = .found () ('=' :: rest) := by
    rw [scanTrivia_blanks hbefore]
    exact scanTrivia_none (startsTrivia_mark (by decide) _ _)
  have haccepts : Accepts false Terminal.attributeName.items false none
      (chars ++ (before ++ '=' :: rest)) rest [.qualifiedName name] := by
    rw [hitems]
    apply accepts_qualifiedName hscan
    apply accepts_gap hsign (fun h => absurd h (by decide))
    exact accepts_char (fun h => absurd h (by decide)) (accepts_nil rest)
  exact ⟨rfl, rfl, matches_of_accepts hskip haccepts⟩

theorem takes_attributeName {blanks : List Char} (hblanks : ∀ c ∈ blanks, isBlank c)
    (rest : List Char) :
    Takes .tag (blanks ++ (n.chars ++ '=' :: rest)) Terminal.attributeName rest
      [.qualifiedName ⟨none, n.text⟩] := by
  have hend : EndsTagName ('=' :: rest) := by
    rintro _ ⟨⟩
    decide
  have hscan := scanQualifiedName_append n.isName hend.endsName hend.noColon
  have hnone : ∀ c ∈ ([] : List Char), isBlank c := nofun
  exact takes_attributeSign hblanks hnone (n.startsTrivia_chars _ _) hscan

theorem takes_literalSection (rest : List Char) :
    Takes .content ("<![CDATA[".toList ++ rest) Terminal.cdataOpen rest [] := by
  have hspelling : "<![CDATA[".toList = ['<', '!', '[', 'C', 'D', 'A', 'T', 'A', '['] := by
    rfl
  have hitems : Terminal.cdataOpen.items = [.char '<', .char '!', .char '[', .char 'C', .char 'D',
      .char 'A', .char 'T', .char 'A', .char '['] := by
    rfl
  have hbracket : endsName ('[' :: rest) := by
    rintro _ ⟨⟩
    decide
  rw [hspelling]
  apply takes_here rfl rfl (startsTrivia_mark (by decide) _ _)
  rw [hitems]
  apply accepts_char (fun h => absurd h (by decide))
  apply accepts_char (fun h => absurd h (by decide))
  apply accepts_char (fun h => absurd h (by decide))
  apply accepts_char (fun h => absurd h (by decide))
  apply accepts_char (fun h => absurd h (by decide))
  apply accepts_char (fun h => absurd h (by decide))
  apply accepts_char (fun h => absurd h (by decide))
  apply accepts_char (fun _ => hbracket)
  exact accepts_char (fun h => absurd h (by decide)) (accepts_nil rest)

theorem takes_instruction (hend : endsName rest) :
    Takes .content ("<?".toList ++ (n.chars ++ rest)) Terminal.nestedPiOpen rest [.name n.text] := by
  have hitems : Terminal.nestedPiOpen.items = [.char '<', .char '?', .capture .name] := by
    rfl
  apply takes_here rfl rfl (startsTrivia_mark (by decide) _ _)
  rw [hitems]
  apply accepts_char (fun h => absurd h (by decide))
  apply accepts_char (fun h => absurd h (by decide))
  exact accepts_name n.isName hend (accepts_nil rest)

/-! ### Rules that are declined -/

open Terminal

/-- The rules that are tried in element content before text is read. -/
def markupRules : List Rule :=
  [endTag, nestedElementOpen, cdataOpen, nestedCommentOpen, nestedPiOpen]

theorem textView_decline :
    markupRules.all fun r => Scan.declines .content r [.unlike '<'] := by
  rw [Scan.declines_eq]
  rfl

/-- Markup is told by the character behind its bracket. -/
theorem markupViews_decline :
    Scan.declines .content endTag [.char '<', .name] ∧
      ([endTag, nestedElementOpen].all fun r => Scan.declines .content r [.char '<', .char '!']) ∧
      Scan.declines .content cdataOpen [.char '<', .char '!', .char '-'] ∧
      ([endTag, nestedElementOpen, cdataOpen, nestedCommentOpen].all fun r =>
        Scan.declines .content r [.char '<', .char '?']) := by
  rw [Scan.declines_eq]
  decide

/-- In a tag no attribute is seen in the end of the tag. -/
theorem tagViews_decline :
    Scan.declines .tag attributeName [.char '>'] ∧ Scan.declines .tag attributeName [.char '/'] ∧
      Scan.declines .tag emptyTagClose [.char '>'] ∧
      Scan.declines .tag attributeQuotOpen [.char '\''] := by
  rw [Scan.declines_eq]
  decide

/-- In an attribute value its end is not seen in a brace. -/
theorem valueViews_decline :
    Scan.declines .quotedValue attributeQuotClose [.char '\x7b'] ∧
      Scan.declines .apostropheValue attributeAposClose [.char '\x7b'] ∧
      Scan.declines .expression enclosedClose [.char '$'] := by
  rw [Scan.declines_eq]
  decide

/-- Before an operand a tag is taken for nothing else. -/
theorem elementView_decline :
    (keywordRules ++ signRules ++ valueRules ++ literalRules ++ [parentStep, contextItem]).all fun r =>
      Scan.declines .expression r [.char '<'] := by
  rw [Scan.declines_eq]
  rfl

theorem declines_char {c : Char} {view : List Glimpse} (h : Scan.declines state r (.char c :: view))
    (hs : Shows state.skipsComments view rest) : Declines state (c :: rest) r :=
  declines_of_view h ⟨rest, rfl, hs⟩

end XQuerySyntax

/-! ### Attributes

Attributes are read as they are serialized. The parts of a value that are read already are followed
by those of the pieces that remain; text is joined to no other text, since no two texts stand side by
side. -/

namespace XQuerySyntax

open XQuerySyntax.Parser Grammar Terminal

variable {f : Frame} {l : Place} {saved : List LexicalState} {state : LexicalState}
  {text rest : List Char} {n : SimpleName} {k : Nat}

theorem reads_lexeme_absent {α : Type} {scanner : List Char → Scanned α} {stack : StateStack}
    (h : scanner text = .absent) :
    Reads f (.at text stack) (lexeme scanner) (fun found => found = none) (.at text stack) := by
  refine reads_scan fun m hstack htext => ?_
  have hlexeme : Scan.lexeme scanner m = .ok none m := Scan.lexeme_absent (htext ▸ h)
  exact ⟨none, m, hlexeme, rfl, ⟨rfl, rfl⟩, htext, hstack, fun _ h => nomatch h⟩

/-! ### Enclosed variables -/

/-- A variable in braces is read behind its opening brace, and the state in which that stood is the
state behind the closing one. -/
theorem reads_enclosedContent (hk : 1 ≤ k) (hdepth : f.depth + 1 ≤ f.maxDepth)
    (hsize : ('$' :: (n.chars ++ '\x7d' :: rest)).length ≤ f.size) :
    Reads f (.before (state :: saved) ('$' :: (n.chars ++ '\x7d' :: rest)))
      (enclosedContent (singleWithin k)) (n.DenotesVariable f.module) (.at rest ⟨state, saved⟩) := by
  have hdecline : Declines .expression ('$' :: (n.chars ++ '\x7d' :: rest)) enclosedClose :=
    declines_char valueViews_decline.2.2 trivial
  have hwritten : Written [.varRef n] ('$' :: (n.chars ++ '\x7d' :: rest)) ('\x7d' :: rest) :=
    ⟨[], '$' :: n.chars, '\x7d' :: rest, rfl, .nil, ⟨[], .nil, rfl⟩, .nil _⟩
  have hread : Reads f (.before (state :: saved) ('$' :: (n.chars ++ '\x7d' :: rest)))
      (expr (singleWithin k)) (n.DenotesVariable f.module)
      (.behind (state :: saved) ('\x7d' :: rest)) :=
    (OperatorTree.varRef n).readable.reads .sequence k f (state :: saved) _ _ _ hk hdepth hsize
      hwritten (behind_brace rest) (Nat.lt_succ_self _)
  have hclose : Takes .operator ('\x7d' :: rest) enclosedClose rest [] :=
    takes_mark "\x7d" (by rfl) rest
  refine reads_bind reads_start fun offset _ => ?_
  apply reads_ifEat_declined hdecline
  refine reads_bind hread fun e he => ?_
  refine reads_bind (reads_eat hclose) fun b hb => ?_
  rw [hb]
  exact reads_forget (reads_pure he)

/-! ### Values -/

/-- A quote with the rule that closes a value behind it and the state inside the value. -/
structure IsQuote (quote : Char) (close : Rule) (state : LexicalState) : Prop where
  delimits : quote = '"' ∨ quote = '\''
  takes : ∀ rest, Takes state (quote :: rest) close rest []
  opens : ∀ rest, Takes state ('\x7b' :: rest) enclosedOpen rest []
  declines : ∀ rest, Declines state ('\x7b' :: rest) close
  next : close.next = .goto .tag

theorem IsQuote.isDelimiter {quote : Char} {close : Rule} (h : IsQuote quote close state) :
    IsDelimiter (some quote) := by
  rcases h.delimits with rfl | rfl
  · exact .inr (.inl rfl)
  · exact .inr (.inr rfl)

theorem isQuote_double : IsQuote '"' attributeQuotClose .quotedValue where
  delimits := .inl rfl
  takes := takes_mark "\"" (by rfl)
  opens := takes_mark "\x7b" (by rfl)
  declines _ := declines_char valueViews_decline.1 trivial
  next := rfl

theorem isQuote_single : IsQuote '\'' attributeAposClose .apostropheValue where
  delimits := .inr rfl
  takes := takes_mark "'" (by rfl)
  opens := takes_mark "\x7b" (by rfl)
  declines _ := declines_char valueViews_decline.2.1 trivial
  next := rfl

namespace ValuePiece

variable {quote : Char} {close : Rule} {pieces : List ValuePiece} {piece : ValuePiece}

theorem length_lt (h : piece.Writes quote text rest) : rest.length < text.length := by
  cases piece with
  | text chars hne =>
    obtain ⟨body, hbody, rfl⟩ := h
    have hsome := List.length_pos_iff.2 (hbody.ne_nil hne)
    rw [List.length_append]
    omega
  | enclosed n =>
    obtain rfl := h
    simp only [List.length_cons, List.length_append]
    omega

theorem length_le (h : WritesAll quote pieces text rest) : rest.length ≤ text.length := by
  induction pieces generalizing text with
  | nil =>
    obtain rfl := h
    exact Nat.le_refl _
  | cons piece pieces ih =>
    obtain ⟨mid, hpiece, hmore⟩ := h
    exact Nat.le_trans (ih hmore) (Nat.le_of_lt (length_lt hpiece))

/-- Text ends where no text comes next. -/
theorem endsText (hquote : quote = '"' ∨ quote = '\'') (h : WritesAll quote pieces text (quote :: rest))
    (hrest : ∀ c ∈ rest.head?, c ≠ quote) (hpieces : ∀ piece ∈ pieces.head?, piece.isText = false) :
    EndsText (some quote) text := by
  have hdelimiter : IsDelimiter (some quote) := by
    rcases hquote with rfl | rfl
    · exact .inr (.inl rfl)
    · exact .inr (.inr rfl)
  cases pieces with
  | nil =>
    obtain rfl := h
    exact endsText_delimiter hquote hrest
  | cons piece pieces =>
    obtain ⟨mid, hpiece, -⟩ := h
    cases piece with
    | text chars hne => cases hpieces _ rfl
    | enclosed n =>
      obtain rfl := hpiece
      exact endsText_enclosed hdelimiter _

/-- The pieces may come behind the parts: no text is joined to another. -/
def Joins (parts : List (AttributeValuePart Expr)) (pieces : List ValuePiece) : Prop :=
  ∀ piece ∈ pieces.head?, piece.isText → ∀ text, parts.getLast? ≠ some (.text text)

theorem addText_eq {parts : List (AttributeValuePart Expr)} (text : String)
    (h : ∀ text, parts.getLast? ≠ some (.text text)) :
    AttributeValuePart.addText parts text = parts ++ [AttributeValuePart.text text] := by
  unfold AttributeValuePart.addText
  split
  · rename_i last hlast
    exact absurd hlast (h last)
  · rfl

theorem apart_tail {α : Type} {isText : α → Bool} {a : α} {as : List α} (h : Apart isText (a :: as)) :
    Apart isText as ∧ ∀ b ∈ as.head?, isText a → isText b = false := by
  cases as with
  | nil => exact ⟨trivial, fun _ hb => nomatch hb⟩
  | cons b as =>
    refine ⟨h.2, ?_⟩
    rintro _ ⟨⟩ ha
    exact Bool.eq_false_iff.2 fun hb => h.1 ⟨ha, hb⟩

theorem isText_of_denotes {module : ModuleId} {text : String}
    (h : piece.Denotes module (.text text)) : piece.isText := by
  cases piece with
  | text => rfl
  | enclosed n =>
    obtain ⟨e, he, -⟩ := h
    cases he

/-- Where a value ends the parser has all its parts. -/
theorem reads_valueEnd (hquote : IsQuote quote close state) (hrest : ∀ c ∈ rest.head?, c ≠ quote)
    (single : Parser Expr) (parts : List (AttributeValuePart Expr)) :
    Reads f (.at (quote :: rest) ⟨state, saved⟩) (attributeValueStep single quote close parts)
      (fun o => ∃ all, o = .inr all ∧ all = parts) (.at rest ⟨.tag, saved⟩) := by
  have habsent := scanMarkupText_absent (endsText_delimiter hquote.delimits hrest)
  refine reads_bind (reads_lexeme_absent habsent) fun o ho => ?_
  rw [ho]
  have hplace : (⟨state, saved⟩ : StateStack).apply close.next = ⟨.tag, saved⟩ := by
    rw [hquote.next]
    rfl
  apply reads_ifEat (hquote.takes rest)
  rw [hplace]
  exact reads_forget (reads_pure ⟨parts, rfl, rfl⟩)

/-- A piece is read as the next part. -/
theorem reads_value (hquote : IsQuote quote close state) (hk : 1 ≤ k)
    (hdepth : f.depth + piece.levels ≤ f.maxDepth) (hsize : text.length ≤ f.size)
    (htext : piece.Writes quote text rest) (hends : piece.isText → EndsText (some quote) rest)
    {parts : List (AttributeValuePart Expr)}
    (hjoins : piece.isText → ∀ text, parts.getLast? ≠ some (.text text)) :
    Reads f (.at text ⟨state, saved⟩) (attributeValueStep (singleWithin k) quote close parts)
      (fun o => ∃ all, o = .inl all ∧ ∃ part, all = parts ++ [part] ∧ piece.Denotes f.module part)
      (.at rest ⟨state, saved⟩) := by
  have hdelimiter : IsDelimiter (some quote) := hquote.isDelimiter
  cases piece with
  | text chars hne =>
    obtain ⟨body, hbody, rfl⟩ := htext
    obtain ⟨boundary, hscan⟩ := scanMarkupText_append hdelimiter hbody hne (hends rfl)
    refine reads_bind (reads_lexeme hscan) fun o ho => ?_
    rw [ho]
    exact reads_pure ⟨_, rfl, _, addText_eq _ (hjoins rfl), rfl⟩
  | enclosed n =>
    obtain rfl := htext
    have habsent := scanMarkupText_absent (endsText_enclosed hdelimiter (n.chars ++ '\x7d' :: rest))
    have hcontent : Reads f (.before (state :: saved) ('$' :: (n.chars ++ '\x7d' :: rest)))
        (enclosedContent (singleWithin k)) (n.DenotesVariable f.module) (.at rest ⟨state, saved⟩) :=
      reads_enclosedContent hk hdepth (Nat.le_of_succ_le hsize)
    refine reads_bind (reads_lexeme_absent habsent) fun o ho => ?_
    rw [ho]
    apply reads_ifEat_declined (hquote.declines _)
    apply reads_ifEat (hquote.opens _)
    refine reads_bind (reads_forget hcontent) fun e he => ?_
    exact reads_pure ⟨_, rfl, _, rfl, e, rfl, he⟩

theorem reads_values (hquote : IsQuote quote close state) (hk : 1 ≤ k)
    (hdepth : f.depth + largest (pieces.map levels) ≤ f.maxDepth) (hsize : text.length ≤ f.size)
    (htext : WritesAll quote pieces text (quote :: rest)) (hrest : ∀ c ∈ rest.head?, c ≠ quote)
    (hapart : Apart isText pieces) {parts : List (AttributeValuePart Expr)}
    (hjoins : Joins parts pieces) {fuel : Nat} (hfuel : text.length ≤ fuel) :
    Reads f (.at text ⟨state, saved⟩)
      (iterateWithin (attributeValueStep (singleWithin k) quote close) fuel parts)
      (fun all => ∃ new, all = parts ++ new ∧ OneByOne (Denotes f.module) pieces new)
      (.at rest ⟨.tag, saved⟩) := by
  induction pieces generalizing text parts fuel with
  | nil =>
    obtain rfl := htext
    obtain ⟨fuel, rfl⟩ := Nat.exists_eq_add_of_lt (Nat.lt_of_lt_of_le (Nat.succ_pos _) hfuel)
    rw [Nat.zero_add]
    apply reads_iterateWithin_done
    refine reads_weaken (reads_valueEnd hquote hrest _ parts) fun o ho => ?_
    obtain ⟨all, rfl, rfl⟩ := ho
    exact ⟨_, rfl, [], (List.append_nil _).symm, rfl⟩
  | cons piece pieces ih =>
    obtain ⟨mid, hpiece, hmore⟩ := htext
    obtain ⟨hapart, hnext⟩ := apart_tail hapart
    have hlt := length_lt hpiece
    obtain ⟨fuel, rfl⟩ := Nat.exists_eq_add_of_lt (Nat.lt_of_lt_of_le (Nat.zero_lt_of_lt hlt) hfuel)
    rw [Nat.zero_add] at hfuel ⊢
    have hlevels : largest ((piece :: pieces).map levels) =
        max piece.levels (largest (pieces.map levels)) := rfl
    have hends : piece.isText → EndsText (some quote) mid :=
      fun htext => endsText hquote.delimits hmore hrest fun p hp => hnext p hp htext
    have hread : Reads f (.at text ⟨state, saved⟩)
        (attributeValueStep (singleWithin k) quote close parts)
        (fun o => ∃ all, o = .inl all ∧ ∃ part, all = parts ++ [part] ∧ piece.Denotes f.module part)
        (.at mid ⟨state, saved⟩) :=
      reads_value hquote hk (by omega) hsize hpiece hends (hjoins piece rfl)
    refine reads_iterateWithin_next hread fun all hall => ?_
    obtain ⟨part, rfl, hpart⟩ := hall
    have hjoins' : Joins (parts ++ [part]) pieces := by
      intro p hp htext text hlast
      rw [List.getLast?_concat] at hlast
      obtain rfl := Option.some.inj hlast
      have hother := hnext p hp (isText_of_denotes hpart)
      rw [htext] at hother
      cases hother
    refine reads_weaken (ih (by omega) (by omega) hmore hapart hjoins' (by omega)) fun all hall => ?_
    obtain ⟨new, rfl, hnew⟩ := hall
    exact ⟨part :: new, by rw [List.append_assoc]; rfl, part, new, rfl, hpart, hnew⟩

end ValuePiece

/-! ### Attributes -/

namespace MarkupAttribute

variable {a : MarkupAttribute} {attributes : List MarkupAttribute} {close : List Char}

/-- An attribute before its name is resolved. -/
def Raw (module : ModuleId) (a : MarkupAttribute) (raw : RawAttribute) : Prop :=
  raw.name = ⟨none, a.name.text⟩ ∧ OneByOne (ValuePiece.Denotes module) a.value raw.value

/-- Behind an attribute comes another one or the end of the tag, and so no quote. -/
theorem behind_attributes (h : WritesAll attributes text close)
    (hclose : ∀ c ∈ close.head?, c = '>' ∨ c = '/') :
    ∀ c ∈ text.head?, isBlank c ∨ c = '>' ∨ c = '/' := by
  cases attributes with
  | nil =>
    obtain rfl := h
    exact fun c hc => .inr (hclose c hc)
  | cons a attributes =>
    obtain ⟨mid, ⟨blanks, quote, inside, hne, hblanks, -, rfl, -⟩, -⟩ := h
    obtain ⟨b, blanks, rfl⟩ := List.exists_cons_of_ne_nil hne
    rintro _ ⟨⟩
    exact .inl (hblanks b List.mem_cons_self)

theorem length_lt (h : a.Writes text rest) : rest.length < text.length := by
  obtain ⟨blanks, quote, inside, -, -, -, rfl, hvalue⟩ := h
  have hle := ValuePiece.length_le hvalue
  simp only [List.length_append, List.length_cons] at hle ⊢
  omega

theorem length_le (h : WritesAll attributes text close) : close.length ≤ text.length := by
  induction attributes generalizing text with
  | nil =>
    obtain rfl := h
    exact Nat.le_refl _
  | cons a attributes ih =>
    obtain ⟨mid, ha, hmore⟩ := h
    exact Nat.le_trans (ih hmore) (Nat.le_of_lt (length_lt ha))

theorem text_ne_xmlns (a : MarkupAttribute) : a.name.text ≠ "xmlns" := by
  intro h
  have hchars := congrArg String.toList h
  rw [SimpleName.text, String.toList_ofList] at hchars
  exact a.hname hchars

theorem reads_attributeValue {quote : Char} (hquote : quote = '"' ∨ quote = '\'') (hk : 1 ≤ k)
    (hdepth : f.depth + a.levels ≤ f.maxDepth) {inside : List Char} (hsize : inside.length ≤ f.size)
    (htext : ValuePiece.WritesAll quote a.value inside (quote :: rest))
    (hrest : ∀ c ∈ rest.head?, c ≠ quote) :
    Reads f (.at (quote :: inside) ⟨.tag, saved⟩) (attributeValue (singleWithin k))
      (OneByOne (ValuePiece.Denotes f.module) a.value) (.at rest ⟨.tag, saved⟩) := by
  have hjoins : ValuePiece.Joins [] a.value := fun _ _ _ _ h => nomatch h
  have hvalue {close : Rule} {state : LexicalState} (h : IsQuote quote close state) :
      Reads f (.at inside ⟨state, saved⟩)
        (iterate (attributeValueStep (singleWithin k) quote close) [])
        (OneByOne (ValuePiece.Denotes f.module) a.value) (.at rest ⟨.tag, saved⟩) := by
    apply reads_iterate
    refine reads_weaken (ValuePiece.reads_values h hk hdepth hsize htext hrest a.apart hjoins
      (by omega)) fun all hall => ?_
    obtain ⟨new, rfl, hnew⟩ := hall
    exact hnew
  rcases hquote with rfl | rfl
  · have hopen : Takes .tag ('"' :: inside) attributeQuotOpen inside [] :=
      takes_mark "\"" (by rfl) inside
    exact reads_ifEat hopen (reads_forget (hvalue isQuote_double))
  · have hdouble : Declines .tag ('\'' :: inside) attributeQuotOpen :=
      declines_char tagViews_decline.2.2.2 trivial
    have hopen : Takes .tag ('\'' :: inside) attributeAposOpen inside [] :=
      takes_mark "'" (by rfl) inside
    exact reads_ifEat_declined hdouble (reads_ifEat hopen (reads_forget (hvalue isQuote_single)))

/-- The attributes read so far, with these behind them. -/
def Joined (module : ModuleId) (tag : TagAttributes) (attributes : List MarkupAttribute)
    (all : TagAttributes) : Prop :=
  all.namespaces = tag.namespaces ∧
    ∃ new, all.raw = tag.raw ++ new ∧ OneByOne (Raw module) attributes new

theorem reads_attribute (hk : 1 ≤ k) (hdepth : f.depth + a.levels ≤ f.maxDepth)
    (hsize : text.length ≤ f.size) (htext : a.Writes text rest)
    (hrest : ∀ c ∈ rest.head?, isBlank c ∨ c = '>' ∨ c = '/') (tag : TagAttributes) :
    Reads f (.at text ⟨.tag, saved⟩) (tagAttributeStep (singleWithin k) tag)
      (fun o => ∃ all, o = .inl all ∧ Joined f.module tag [a] all) (.at rest ⟨.tag, saved⟩) := by
  obtain ⟨blanks, quote, inside, hne, hblanks, hquote, rfl, hvalue⟩ := htext
  have hother : ∀ c ∈ rest.head?, c ≠ quote := by
    rcases hquote with rfl | rfl
    · rintro c hc rfl
      exact absurd (hrest '"' hc) (by decide)
    · rintro c hc rfl
      exact absurd (hrest '\'' hc) (by decide)
  have hread : Reads f (.at (quote :: inside) ⟨.tag, saved⟩) (attributeValue (singleWithin k))
      (OneByOne (ValuePiece.Denotes f.module) a.value) (.at rest ⟨.tag, saved⟩) :=
    reads_attributeValue hquote hk hdepth (by simp at hsize; omega) hvalue hother
  refine reads_bind (reads_eat (takes_attributeName hblanks _)) fun b hb => ?_
  rw [hb]
  refine reads_bind reads_start fun offset _ => ?_
  refine reads_bind (reads_captured fun captures => captures.qualifiedName 0) fun name hname => ?_
  have hname' : name = ⟨none, a.name.text⟩ := hname
  rw [hname']
  refine reads_bind (reads_forget hread) fun value hvalue => ?_
  rw [if_neg (fun h => a.text_ne_xmlns h.2), if_neg (fun h => by cases h)]
  exact reads_pure ⟨_, rfl, rfl, _, rfl, _, _, rfl, ⟨rfl, hvalue⟩, rfl⟩

/-- The end of a tag is no attribute. -/
theorem reads_attributesEnd (hclose : ∃ rest, close = '>' :: rest ∨ close = '/' :: rest)
    (single : Parser Expr) (tag : TagAttributes) :
    Reads f (.at close ⟨.tag, saved⟩) (tagAttributeStep single tag)
      (fun o => ∃ all, o = .inr all ∧ all = tag) (.at close ⟨.tag, saved⟩) := by
  have hdecline : Declines .tag close attributeName := by
    obtain ⟨rest, rfl | rfl⟩ := hclose
    · exact declines_char tagViews_decline.1 trivial
    · exact declines_char tagViews_decline.2.1 trivial
  refine reads_bind (reads_eat_declined hdecline) fun b hb => ?_
  rw [hb]
  exact reads_pure ⟨tag, rfl, rfl⟩

theorem reads_attributes (hk : 1 ≤ k) (hdepth : f.depth + largest (attributes.map levels) ≤ f.maxDepth)
    (hsize : text.length ≤ f.size) (htext : WritesAll attributes text close)
    (hclose : ∃ rest, close = '>' :: rest ∨ close = '/' :: rest) (tag : TagAttributes) {fuel : Nat}
    (hfuel : text.length ≤ fuel) :
    Reads f (.at text ⟨.tag, saved⟩) (iterateWithin (tagAttributeStep (singleWithin k)) fuel tag)
      (Joined f.module tag attributes) (.at close ⟨.tag, saved⟩) := by
  induction attributes generalizing text tag fuel with
  | nil =>
    obtain rfl := htext
    have hpos : 0 < text.length := by
      obtain ⟨rest, rfl | rfl⟩ := hclose <;> exact Nat.succ_pos _
    obtain ⟨fuel, rfl⟩ := Nat.exists_eq_add_of_lt (Nat.lt_of_lt_of_le hpos hfuel)
    rw [Nat.zero_add]
    apply reads_iterateWithin_done
    refine reads_weaken (reads_attributesEnd hclose _ tag) fun o ho => ?_
    obtain ⟨all, rfl, rfl⟩ := ho
    exact ⟨_, rfl, rfl, [], (List.append_nil _).symm, rfl⟩
  | cons a attributes ih =>
    obtain ⟨mid, ha, hmore⟩ := htext
    have hlt := length_lt ha
    obtain ⟨fuel, rfl⟩ := Nat.exists_eq_add_of_lt (Nat.lt_of_lt_of_le (Nat.zero_lt_of_lt hlt) hfuel)
    rw [Nat.zero_add] at hfuel ⊢
    have hlevels : largest ((a :: attributes).map levels) =
        max a.levels (largest (attributes.map levels)) := rfl
    have hends : ∀ c ∈ close.head?, c = '>' ∨ c = '/' := by
      obtain ⟨rest, rfl | rfl⟩ := hclose
      · rintro _ ⟨⟩
        exact .inl rfl
      · rintro _ ⟨⟩
        exact .inr rfl
    have hread : Reads f (.at text ⟨.tag, saved⟩) (tagAttributeStep (singleWithin k) tag)
        (fun o => ∃ all, o = .inl all ∧ Joined f.module tag [a] all) (.at mid ⟨.tag, saved⟩) :=
      reads_attribute hk (by omega) hsize ha (behind_attributes hmore hends) tag
    refine reads_iterateWithin_next hread fun tag' htag' => ?_
    obtain ⟨hnamespaces, new, hraw, raw, rest, rfl, ha', rfl⟩ := htag'
    refine reads_weaken (ih (by omega) (by omega) hmore tag' (by omega)) fun all hall => ?_
    obtain ⟨hnamespaces', new', hraw', hnew'⟩ := hall
    refine ⟨hnamespaces'.trans hnamespaces, raw :: new', ?_, raw, new', rfl, ha', hnew'⟩
    rw [hraw', hraw, List.append_assoc]
    rfl

/-- Attributes without a prefix are in no namespace. -/
theorem reads_resolved {raws : List RawAttribute} (h : OneByOne (Raw f.module) attributes raws)
    (seen : List ExpandedName) :
    Reads f l (resolveAttributes seen raws) (OneByOne (Denotes f.module) attributes) l := by
  induction attributes generalizing raws seen with
  | nil =>
    obtain rfl := h
    exact reads_pure rfl
  | cons a attributes ih =>
    obtain ⟨raw, raws, rfl, ⟨hname, hvalue⟩, hraws⟩ := h
    have hplain : Reads f l (plainName raw.name raw.offset)
        (fun name => name = ⟨none, a.name.text, none⟩) l := by
      rw [hname]
      exact reads_pure rfl
    refine reads_bind hplain fun name hname => ?_
    extract_lets answer
    have hanswer : Reads f l (answer ()) (OneByOne (Denotes f.module) (a :: attributes)) l := by
      refine reads_bind (ih hraws _) fun parsed hparsed => ?_
      refine reads_pure ⟨_, parsed, rfl, ⟨raw.value, raw.offset, ?_, hvalue⟩, hparsed⟩
      rw [hname]
    split
    · exact reads_bind (reads_record _ _ _) fun _ _ => hanswer
    · exact hanswer

end MarkupAttribute

end XQuerySyntax
