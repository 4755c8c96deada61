import XQuerySyntax.Proofs.Comparison.Expr
import XQuerySyntax.Proofs.Names.Recording
import XQuerySyntax.Proofs.RoundTrip.MarkupElement
import XQuerySyntax.Proofs.RoundTrip.Phrase
import XQuerySyntax.Proofs.Tree.Declaration

/-! The order of the attributes of a start tag. The names of an element and of its attributes are resolved
behind the tag, with the namespaces that it binds, and so are the names in its content: none of them
depends on the order of the attributes. Only the value of an attribute is read where it stands, with the
namespaces bound in front of it. -/

namespace XQuerySyntax

open XQuerySyntax.Parser Grammar Terminal

/-! ### Attributes as they are written -/

/-- An attribute of a start tag as it is written, and what its value is read as, offsets aside. -/
structure TagAttribute where
  /-- The blanks in front of it. -/
  space : List Char
  name : LexicalName
  /-- The blanks in front of the equals sign. -/
  before : List Char
  /-- The blanks behind the equals sign. -/
  after : List Char
  quote : Char
  /-- What stands between the quotes. -/
  body : List Char
  value : List (AttributeValuePart Expr)
  /-- What is recorded while the value is read. -/
  reports : List Diagnostic
  space_ne : space ≠ []
  blank : ∀ c ∈ space ++ (before ++ after), isBlank c
  lexical : QName.isLexical ⟨name.qualifier, name.localPart, none⟩
  delimits : quote = '"' ∨ quote = '\''

namespace TagAttribute

/-- The value between its quotes, from behind the equals sign, and then `rest`. -/
def valueThen (a : TagAttribute) (rest : List Char) : List Char :=
  a.after ++ a.quote :: (a.body ++ a.quote :: rest)

/-- The attribute and then `rest`. -/
def charsThen (a : TagAttribute) (rest : List Char) : List Char :=
  a.space ++ (a.name.text.toList ++ (a.before ++ '=' :: a.valueThen rest))

/-- The attributes and then `rest`. -/
def allThen (as : List TagAttribute) (rest : List Char) : List Char := as.foldr charsThen rest

/-- The namespace that the attribute binds, if it binds one. -/
def binding? (a : TagAttribute) : Option NamespaceBinding :=
  if a.name.qualifier = none ∧ a.name.localPart = "xmlns" then
    some ⟨none, AttributeValuePart.literalText a.value⟩
  else if a.name.qualifier = some "xmlns" then
    some ⟨some a.name.localPart, AttributeValuePart.literalText a.value⟩
  else none

/-- The attribute that it is otherwise. -/
def raw? (a : TagAttribute) : Option RawAttribute :=
  if a.binding?.isNone then some ⟨a.name, a.value, 0⟩ else none

/-- The namespaces that attributes bind. -/
def bindings (as : List TagAttribute) : List NamespaceBinding := as.filterMap binding?

/-- The attributes that bind no namespace. -/
def raws (as : List TagAttribute) : List RawAttribute := as.filterMap raw?

/-- What is recorded where the attribute stands. -/
def allReports (a : TagAttribute) : List Diagnostic :=
  a.reports ++ a.binding?.toList.flatMap fun b => notLiteralReports a.value ++ b.reports

theorem space_blank (a : TagAttribute) : ∀ c ∈ a.space, isBlank c :=
  fun c hc => a.blank c (List.mem_append_left _ hc)

theorem before_blank (a : TagAttribute) : ∀ c ∈ a.before, isBlank c :=
  fun c hc => a.blank c (List.mem_append_right _ (List.mem_append_left _ hc))

theorem after_blank (a : TagAttribute) : ∀ c ∈ a.after, isBlank c :=
  fun c hc => a.blank c (List.mem_append_right _ (List.mem_append_right _ hc))

variable {f : Frame} {saved : List LexicalState} {rest : List Char} {single : Parser Expr} {a : TagAttribute}

/-- The value is read up to its closing quote as what it is said to be read as. -/
def Reads (a : TagAttribute) (f : Frame) (saved : List LexicalState) (rest : List Char)
    (single : Parser Expr) : Prop :=
  Parser.Reports f (.at (a.valueThen rest) ⟨.tag, saved⟩) (attributeValue single)
    (fun value => value.map (AttributeValuePart.map (Expr.moved nowhere)) = a.value) a.reports f
    (.at rest ⟨.tag, saved⟩)

theorem takes_name (a : TagAttribute) (rest : List Char) :
    Takes .tag (a.charsThen rest) attributeName (a.valueThen rest) [.qualifiedName a.name] := by
  have htext : a.name.text = (QName.mk a.name.qualifier a.name.localPart none).text := rfl
  have hends : EndsTagName (a.before ++ '=' :: a.valueThen rest) := by
    intro c hc
    cases hb : a.before with
    | nil =>
      rw [hb] at hc
      cases hc
      decide
    | cons d blanks =>
      rw [hb] at hc
      cases hc
      exact .inl (a.before_blank _ (hb ▸ List.mem_cons_self))
  have hsettled := QName.settled a.lexical hends.endsName
  have hset : startsTrivia false (a.name.text.toList ++ (a.before ++ '=' :: a.valueThen rest)) = false := by
    rw [htext, startsTrivia, (Bool.or_eq_false_iff.1 hsettled).1]
    rfl
  refine takes_attributeSign a.space_blank a.before_blank hset ?_
  rw [htext]
  exact QName.scan_append a.lexical hends.endsName hends.noColon

/-- An attribute is read as the namespace that it binds, or as the attribute that it is otherwise. -/
theorem reports_step (hread : a.Reads f saved rest single) {tag : TagAttributes}
    (hnew : ∀ b ∈ a.binding?, ∀ b' ∈ tag.namespaces, b'.qualifier ≠ b.qualifier) :
    Parser.Reports f (.at (a.charsThen rest) ⟨.tag, saved⟩) (tagAttributeStep single tag)
      (fun o => ∃ all, o = .inl all ∧ all.moved nowhere =
        ⟨(tag.moved nowhere).raw ++ a.raw?.toList, tag.namespaces ++ a.binding?.toList⟩)
      a.allReports (f.binding a.binding?.toList) (.at rest ⟨.tag, saved⟩) := by
  refine reports_behind (recordsNothing_scan _) (fun _ => reads_eat (a.takes_name rest)) fun b hb => ?_
  rw [hb]
  refine reports_behind (recordsNothing_observe _ _) (fun _ => reads_start) fun offset _ => ?_
  refine reports_behind (recordsNothing_observe _ _)
    (fun _ => reads_captured fun captures => captures.qualifiedName 0) fun name hname => ?_
  obtain rfl : name = a.name := hname
  refine reports_bind (reports_forget hread) fun value hvalue => ?_
  have hliteral : AttributeValuePart.literalText a.value = AttributeValuePart.literalText value := by
    rw [← hvalue, AttributeValuePart.literalText_map]
  have hcount : notLiteralReports a.value = notLiteralReports value := by
    rw [← hvalue, notLiteralReports, AttributeValuePart.enclosedCount_map]
    rfl
  -- The default namespace and the one of a qualifier are bound in one way.
  have hbinds (qualifier : Option String)
      (hb : a.binding? = some ⟨qualifier, AttributeValuePart.literalText a.value⟩) :
      Parser.Reports f (.at rest ⟨.tag, saved⟩) (do
        let binding ← namespaceAttribute qualifier value offset tag.namespaces
        return (.inl { tag with namespaces := tag.namespaces ++ [binding] } : TagAttributes ⊕ TagAttributes))
        (fun o => ∃ all, o = .inl all ∧ all.moved nowhere =
          ⟨(tag.moved nowhere).raw ++ a.raw?.toList, tag.namespaces ++ a.binding?.toList⟩)
        (a.binding?.toList.flatMap fun b => notLiteralReports a.value ++ b.reports)
        (f.binding a.binding?.toList) (.at rest ⟨.tag, saved⟩) := by
    have hraw : a.raw? = none := by rw [raw?, hb]; rfl
    have hother := hnew _ hb
    rw [hraw, hb, Option.toList_some, List.flatMap_singleton, hcount, hliteral]
    refine reports_before (reports_namespaceAttribute qualifier value offset hother) fun binding hbinding => ?_
    refine reports_pure ⟨_, rfl, ?_⟩
    rw [hbinding, Option.toList_none, List.append_nil]
    rfl
  split
  · exact hbinds _ (if_pos ‹_›)
  rename_i hdefault
  split
  · exact hbinds _ ((if_neg hdefault).trans (if_pos ‹_›))
  · have hb : a.binding? = none := (if_neg hdefault).trans (if_neg ‹_›)
    have hraw : a.raw? = some ⟨a.name, a.value, 0⟩ := by rw [raw?, hb]; rfl
    rw [hraw, hb]
    refine reports_pure ⟨_, rfl, ?_⟩
    rw [← hvalue, Option.toList_none, List.append_nil]
    exact congrArg (TagAttributes.mk · _) List.map_append

/-! ### Literal values -/

/-- The value is text alone, or nothing. -/
def IsLiteral (a : TagAttribute) : Prop :=
  a.reports = [] ∧ ∃ run, scanMarkupRun (some a.quote) (a.body ++ [a.quote]) = .found run [a.quote] ∧
    a.value = if a.body = [] then [] else [.text (String.ofList run.chars)]

/-- A value that is written as text is literal. -/
theorem isLiteral_of_body {chars : List Char} (hbody : MarkupBody (some a.quote) chars a.body)
    (hvalue : a.value = if a.body = [] then [] else [.text (String.ofList chars)]) (hreports : a.reports = []) :
    a.IsLiteral := by
  have hdelimiter : IsDelimiter (some a.quote) := .inr (a.delimits.imp (congrArg some) (congrArg some))
  have hend : ∀ c ∈ ([] : List Char).head?, c ≠ a.quote := nofun
  obtain ⟨boundary, hrun⟩ := scanMarkupRun_append hdelimiter hbody (endsText_delimiter a.delimits hend)
  exact ⟨hreports, _, hrun, hvalue⟩

theorem reports_valueEnd {quote : Char} {close : Rule} {state : LexicalState} (hquote : IsQuote quote close state)
    (hrest : ∀ c ∈ rest.head?, c ≠ quote) (parts : List (AttributeValuePart Expr)) :
    Parser.Reports f (.at (quote :: rest) ⟨state, saved⟩) (attributeValueStep single quote close parts)
      (fun o => ∃ all, o = .inr all ∧ all = parts) [] f (.at rest ⟨.tag, saved⟩) := by
  have habsent := scanMarkupText_absent (endsText_delimiter hquote.delimits hrest)
  have hplace : (⟨state, saved⟩ : StateStack).apply close.next = ⟨.tag, saved⟩ := by
    rw [hquote.next]
    rfl
  refine reports_behind (recordsNothing_scan _) (fun _ => reads_lexeme_absent habsent) fun o ho => ?_
  rw [ho]
  apply reports_ifEat (hquote.takes rest)
  rw [hplace]
  exact reports_forget (reports_pure ⟨parts, rfl, rfl⟩)

/-- A literal value is read alike with all namespaces. -/
theorem IsLiteral.reads (h : a.IsLiteral) (hrest : ∀ c ∈ rest.head?, c ≠ '"' ∧ c ≠ '\'') (hsize : 0 < f.size)
    (saved : List LexicalState) (single : Parser Expr) : a.Reads f saved rest single := by
  obtain ⟨hreports, run, hrun, hvalue⟩ := h
  have hother : ∀ c ∈ rest.head?, c ≠ a.quote := by
    intro c hc
    rcases a.delimits with hquote | hquote
    · exact hquote ▸ (hrest c hc).1
    · exact hquote ▸ (hrest c hc).2
  have hscan := scanMarkupRun_before a.delimits hother hrun
  have hloop {quote : Char} {close : Rule} {state : LexicalState} (hq : a.quote = quote)
      (hquote : IsQuote quote close state) :
      Parser.Reports f (.at (a.body ++ a.quote :: rest) ⟨state, saved⟩)
        (iterate (attributeValueStep single quote close) [])
        (fun value => value.map (AttributeValuePart.map (Expr.moved nowhere)) = a.value) a.reports f
        (.at rest ⟨.tag, saved⟩) := by
    subst hq
    rw [hvalue, hreports]
    apply reports_iterate
    obtain ⟨n, hn⟩ := Nat.exists_eq_add_of_lt hsize
    rw [hn, Nat.zero_add]
    by_cases hbody : a.body = []
    · rw [hbody, if_pos rfl]
      refine reports_weaken (reports_iterateWithin_done (reports_valueEnd hquote hother [])) fun all hall => ?_
      rw [hall]
      rfl
    · rw [if_neg hbody]
      have htext : scanMarkupText (some a.quote) (a.body ++ a.quote :: rest) =
          .found ⟨String.ofList run.chars, run.boundary⟩ (a.quote :: rest) := by
        have hsome := List.length_pos_iff.2 hbody
        unfold scanMarkupText
        rw [hscan]
        dsimp only
        rw [if_neg (by rw [List.length_append]; omega)]
      have hstep : Parser.Reports f (.at (a.body ++ a.quote :: rest) ⟨state, saved⟩)
          (attributeValueStep single a.quote close [])
          (fun o => ∃ all, o = .inl all ∧ all = [.text (String.ofList run.chars)]) [] f
          (.at (a.quote :: rest) ⟨state, saved⟩) := by
        refine reports_behind (recordsNothing_scan _) (fun _ => reads_lexeme htext) fun o ho => ?_
        rw [ho]
        exact reports_pure ⟨_, rfl, rfl⟩
      refine reports_iterateWithin_next hstep fun parts hparts => ?_
      refine reports_weaken (reports_iterateWithin_done (reports_valueEnd hquote hother parts)) fun all hall => ?_
      rw [hall, hparts]
      rfl
  rcases a.delimits with hquote | hquote
  · have hopen : Takes .tag (a.valueThen rest) attributeQuotOpen (a.body ++ a.quote :: rest) [] := by
      rw [valueThen, hquote]
      exact takes_markBehind a.after_blank "\"" (by rfl) rfl _
    exact reports_ifEat hopen (reports_forget (hloop hquote isQuote_double))
  · have hdouble : Declines .tag (a.valueThen rest) attributeQuotOpen := by
      rw [valueThen, hquote]
      cases hafter : a.after with
      | nil => exact declines_char tagViews_decline.2.2.2 trivial
      | cons c blanks =>
        have hblanks := hafter ▸ a.after_blank
        have hshows : Glimpse.Shows false [.gap, .char '\''] (c :: blanks ++ '\'' :: (a.body ++ '\'' :: rest)) := by
          refine ⟨_, ?_, (scanTrivia_blanks hblanks _ _).trans (scanTrivia_none ?_), _, rfl, trivial⟩
          · simp [startsTrivia, hblanks c List.mem_cons_self]
          · exact startsTrivia_mark (by decide) _ _
        exact declines_of_view (by decide) hshows
    have hopen : Takes .tag (a.valueThen rest) attributeAposOpen (a.body ++ a.quote :: rest) [] := by
      rw [valueThen, hquote]
      exact takes_markBehind a.after_blank "'" (by rfl) rfl _
    exact reports_ifEat_declined hdouble
      (reports_ifEat hopen (reports_forget (hloop hquote isQuote_single)))

end TagAttribute

end XQuerySyntax

/-! ### Values that are read where they stand -/

namespace XQuerySyntax

open XQuerySyntax.Parser Grammar Comparison

variable {f : Frame} {saved : List LexicalState} {rest : List Char} {k : Nat} {a : TagAttribute}

/-- Somewhere in front of `rest` the value has been read so. -/
def TagAttribute.ReadOnce (a : TagAttribute) (f : Frame) (saved : List LexicalState) (rest : List Char)
    (single : Parser Expr) : Prop :=
  ∃ s value s₁, s.Stands f (.at (a.valueThen rest) ⟨.tag, saved⟩) ∧ attributeValue single s = .ok value s₁ ∧
    value.map (AttributeValuePart.map (Expr.moved nowhere)) = a.value ∧ s₁.Stands f (.at rest ⟨.tag, saved⟩) ∧
      s₁.told.Perm (s.told ++ a.reports)

/-- What is read once is always read so. -/
theorem TagAttribute.ReadOnce.reads {a : TagAttribute} {saved : List LexicalState} {k : Nat}
    (h : a.ReadOnce f saved rest (singleWithin k)) : a.Reads f saved rest (singleWithin k) := by
  intro s' hs'
  obtain ⟨s, value, s₁, hs, hr, hvalue, hs₁, htold⟩ := h
  have hnear := near_of_stands hs hs'
  have hrounds : (reordered f.maxDepth s.recorded s'.recorded).rounds.like k k := ⟨Nat.le_refl k, fun _ => rfl⟩
  have hends := (agree_attributeValue (pairs_singleWithin hrounds)).follows not_false s s' hnear
  rw [hr] at hends
  obtain ⟨hon, -⟩ | ⟨-, value', s₁', hr', hlike, hnear₁⟩ := hends
  · exact hon.elim
  · refine ⟨value', s₁', hr', eq_of_likeValue hlike ▸ hvalue, stands_of_near hnear₁ hs₁, ?_⟩
    have hcourse := (told_of_records hnear₁.recorded).symm.trans (htold.append_left s'.told)
    exact (List.perm_append_left_iff s.told).1 (hcourse.trans (List.perm_append_comm_assoc _ _ _))

/-- A run over the value shows what it is read as. -/
theorem TagAttribute.ReadOnce.of_run {s s₁ : ParserState} {value : List (AttributeValuePart Expr)} (text : String)
    (hs : s.Stands f (.at (a.valueThen rest) ⟨.tag, saved⟩)) (hscan : s.scan.Within text)
    (hrecorded : s.recorded = []) (hr : attributeValue (singleWithin k) s = .ok value s₁)
    (hvalue : value.map (AttributeValuePart.map (Expr.moved nowhere)) = a.value)
    (hrest : s₁.scan.cursor.rest = rest) (hstack : s₁.scan.stack = ⟨.tag, saved⟩)
    (hextensions : s₁.scan.extensions = s.scan.extensions) (htold : s₁.told = a.reports) :
    a.ReadOnce f saved rest (singleWithin k) := by
  have hbegins : s.Within ⟨text, s.module, s.maxDepth⟩ s.depth (Knowledge.of s.context).holds :=
    ⟨hscan, rfl, rfl, rfl, .refl _, fun r hr => by rw [hrecorded] at hr; cases hr⟩
  obtain ⟨hscan₁, hmodule, hlimit, hdepth, ⟨-, hcontext⟩, -⟩ :=
    Contract.of_ok (yields_attributeValue (yields_singleWithin k) _) hbegins hr
  refine ⟨s, value, s₁, hs, hr, hvalue, ⟨hs.1.trans hcontext.alike, ?_, hrest, hstack, fun _ h => nomatch h⟩, ?_⟩
  · have hframe : s₁.frame = { s.frame with context := s₁.context } := by
      unfold ParserState.frame
      rw [hmodule, hlimit, hdepth, hextensions, hscan₁.size, hscan.size]
    exact hframe.trans (congrArg (fun g : Frame => { g with context := s₁.context }) hs.2.frame)
  · have hnothing : s.told = [] := congrArg (List.map _) hrecorded
    rw [htold, hnothing]
    exact .refl _

end XQuerySyntax

/-! ### Start tags -/

namespace XQuerySyntax

open XQuerySyntax.Parser Grammar Terminal

namespace TagAttribute

variable {f : Frame} {saved : List LexicalState} {close : List Char} {single : Parser Expr} {k : Nat}
  {as bs : List TagAttribute} {c c' : StaticContext}

/-- The attributes of a tag end here: no further one comes, nor does the last value go on. -/
structure EndsTag (close : List Char) : Prop where
  declines : Declines .tag close attributeName
  head_ne : ∀ c ∈ close.head?, c ≠ '"' ∧ c ≠ '\''

theorem endsTag_empty (rest : List Char) : EndsTag ('/' :: rest) :=
  ⟨declines_char tagViews_decline.2.1 trivial, by rintro _ ⟨⟩; decide⟩

/-- Each of the attributes is literal, or has been read so where it stands, with the namespaces bound that
the attributes in front of it bind. -/
def ReadInTurn (saved : List LexicalState) (close : List Char) (single : Parser Expr) :
    Frame → List TagAttribute → Prop
  | _, [] => True
  | f, a :: as => (a.IsLiteral ∨ a.ReadOnce f saved (allThen as close) single) ∧
      ReadInTurn saved close single (f.binding a.binding?.toList) as

theorem head_allThen (a : TagAttribute) (as : List TagAttribute) (close : List Char) :
    ∃ c, (allThen (a :: as) close).head? = some c ∧ isBlank c := by
  obtain ⟨c, blanks, hspace⟩ := List.exists_cons_of_ne_nil a.space_ne
  refine ⟨c, ?_, a.space_blank c (hspace ▸ List.mem_cons_self)⟩
  change (a.charsThen _).head? = _
  rw [charsThen, hspace]
  rfl

theorem endsTagName_allThen (a : TagAttribute) (as : List TagAttribute) (close : List Char) :
    EndsTagName (allThen (a :: as) close) := by
  obtain ⟨c, hc, hblank⟩ := head_allThen a as close
  rw [EndsTagName, hc]
  rintro _ ⟨⟩
  exact .inl hblank

theorem head_ne_allThen (hclose : EndsTag close) (as : List TagAttribute) :
    ∀ c ∈ (allThen as close).head?, c ≠ '"' ∧ c ≠ '\'' := by
  cases as with
  | nil => exact hclose.head_ne
  | cons a as =>
    obtain ⟨c, hc, hblank⟩ := head_allThen a as close
    rw [hc]
    rintro _ ⟨⟩
    constructor <;> rintro rfl <;> exact absurd hblank (by decide)

theorem bindings_cons (a : TagAttribute) (as : List TagAttribute) :
    bindings (a :: as) = a.binding?.toList ++ bindings as := by
  rw [bindings, List.filterMap_cons]
  cases a.binding? <;> rfl

theorem raws_cons (a : TagAttribute) (as : List TagAttribute) : raws (a :: as) = a.raw?.toList ++ raws as := by
  rw [raws, List.filterMap_cons]
  cases a.raw? <;> rfl

/-- The attributes are read one by one, up to the end of the tag. -/
theorem reports_attributes (hclose : EndsTag close) (hsize : as.length ≤ f.size)
    (hread : ReadInTurn saved close (singleWithin k) f as) {tag : TagAttributes}
    (hkeys : ((tag.namespaces ++ bindings as).map NamespaceBinding.key).Nodup) {fuel : Nat}
    (hfuel : as.length < fuel) :
    Parser.Reports f (.at (allThen as close) ⟨.tag, saved⟩)
      (iterateWithin (tagAttributeStep (singleWithin k)) fuel tag)
      (fun all => all.moved nowhere = ⟨(tag.moved nowhere).raw ++ raws as, tag.namespaces ++ bindings as⟩)
      (as.flatMap allReports) (f.binding (bindings as)) (.at close ⟨.tag, saved⟩) := by
  obtain ⟨fuel, rfl⟩ := Nat.exists_eq_add_of_lt hfuel
  -- What is bound so far and what is still to be bound differ in their keys: so no attribute is refused.
  induction as generalizing f tag with
  | nil =>
    have hend : Parser.Reports f (.at close ⟨.tag, saved⟩) (tagAttributeStep (singleWithin k) tag)
        (fun o => ∃ all, o = .inr all ∧ all = tag) [] f (.at close ⟨.tag, saved⟩) := by
      refine reports_behind (recordsNothing_scan _) (fun _ => reads_eat_declined hclose.declines) fun b hb => ?_
      rw [hb]
      exact reports_pure ⟨tag, rfl, rfl⟩
    refine reports_weaken (reports_iterateWithin_done hend) fun all hall => ?_
    rw [hall, raws, bindings, List.filterMap_nil, List.filterMap_nil, List.append_nil, List.append_nil]
    rfl
  | cons a as ih =>
    obtain ⟨ha, hread⟩ := hread
    have hvalue : a.Reads f saved (allThen as close) (singleWithin k) :=
      ha.elim (fun h => h.reads (head_ne_allThen hclose as) (Nat.zero_lt_of_lt hsize) saved _) ReadOnce.reads
    have hnew : ∀ b ∈ a.binding?, ∀ b' ∈ tag.namespaces, b'.qualifier ≠ b.qualifier := by
      intro b hb b' hb' heq
      rw [List.map_append, List.nodup_append] at hkeys
      have hmem : b ∈ bindings (a :: as) := List.mem_filterMap.2 ⟨a, List.mem_cons_self, hb⟩
      exact hkeys.2.2 _ (List.mem_map_of_mem hb') _ (List.mem_map_of_mem hmem) (congrArg (Option.getD · "") heq)
    have hfuel : (a :: as).length + fuel + 1 = as.length + fuel + 1 + 1 := by
      rw [List.length_cons]
      omega
    have hframe : f.binding (bindings (a :: as)) = (f.binding a.binding?.toList).binding (bindings as) := by
      rw [bindings_cons, Frame.binding, StaticContext.binding, List.map_append, StaticContext.bindAll_append]
      rfl
    rw [hfuel, hframe, List.flatMap_cons]
    refine reports_iterateWithin_next (reports_step hvalue hnew) fun tag' htag' => ?_
    have hnamespaces : tag'.namespaces = tag.namespaces ++ a.binding?.toList :=
      congrArg TagAttributes.namespaces htag'
    have hkeys' : ((tag'.namespaces ++ bindings as).map NamespaceBinding.key).Nodup := by
      rw [hnamespaces, List.append_assoc, ← bindings_cons]
      exact hkeys
    have hsize' : as.length ≤ (f.binding a.binding?.toList).size := Nat.le_of_lt hsize
    refine reports_weaken (ih hsize' hread hkeys' (by omega)) fun all hall => ?_
    rw [hall, hnamespaces, htag', raws_cons, bindings_cons, List.append_assoc, List.append_assoc]

end TagAttribute

end XQuerySyntax

/-! ### Elements in two parts -/

namespace XQuerySyntax

open XQuerySyntax.Parser Grammar Terminal Comparison

namespace Grammar

variable (single : Parser Expr) (element : Nat → Parser Expr) (opened : LexicalName) (offset : Nat)

/-- The start tag of an element behind its name, up to its end. -/
def startTag : Parser (DirElement Expr) := do
  let tag ← iterate (tagAttributeStep single) ⟨[], []⟩
  let name ← elementName opened offset
  let attributes ← resolveAttributes [] tag.raw
  return ⟨name, attributes, tag.namespaces, [], true⟩

/-- The content of an element from the end of its start tag on, unless the tag closes the element. -/
def tagContent : Parser (Option (List (DirContent Expr))) := do
  if ← eat Terminal.emptyTagClose then
    return none
  if !(← eat Terminal.startTagClose) then
    unexpected "an attribute, '>' or '/>'"
  return some (← elementContent single element opened)

end Grammar

/-- The element with its content. -/
def DirElement.holding (e : DirElement Expr) (content? : Option (List (DirContent Expr))) : DirElement Expr :=
  { e with content := content?.getD [], selfClosing := content?.isNone }

theorem elementInFrame_eq (single : Parser Expr) (element : Nat → Parser Expr) (opened : LexicalName)
    (offset : Nat) : elementInFrame single element opened offset = (do
      let tag ← startTag single opened offset
      let content? ← tagContent single element opened
      node (.dirElement (tag.holding content?)) offset) := by
  unfold elementInFrame startTag tagContent
  simp only [bind_assoc, pure_bind]
  refine bind_congr fun tag => bind_congr fun name => bind_congr fun attributes => bind_congr fun closed => ?_
  split
  · rfl
  rw [bind_assoc]
  refine bind_congr fun opens => ?_
  split
  · rfl
  · rw [bind_assoc]
    rfl

section

variable {S : Comparison} {single single' : Parser Expr} {element element' : Nat → Parser Expr} {t : Stage}

theorem agree_tagContent (h : S.Pairs S.expr single single') (he : ElementsAgree S element element')
    (opened : LexicalName) : S.Agree False (S.Near t) (tagContent single element opened)
      (tagContent single' element' opened) S.dirContent.list.option fun _ => S.Near .behind := by
  have hcontent := (agree_elementContent h he opened).found
  refine agree_ifReads S.core_kept (.pre .absent fun _ _ hs => hs.1) ?_
  refine agree_unlessReads S.core_kept ?_ (.pre hcontent fun _ _ hs => hs.1)
  exact .then (Q := fun _ => S.Near .behind) (agree_unexpected _) fun _ => hcontent

end

/-- The attribute wherever it stands. -/
def DirAttribute.placeless (a : DirAttribute Expr) : DirAttribute Expr := a.map (Expr.moved nowhere) nowhere

namespace TagAttribute

variable {f : Frame} {saved : List LexicalState} {close : List Char} {k : Nat} {as bs : List TagAttribute}
  {c c' : StaticContext}

/-- What a start tag is read as, offsets aside. All names are resolved with all its namespaces in scope. -/
def element (opened : LexicalName) (c : StaticContext) (as : List TagAttribute) : DirElement Expr where
  name := opened.resolvedIn (c.binding (bindings as)) (c.binding (bindings as)).elementNamespace?
  attributes := (raws as).map (·.resolvedIn (c.binding (bindings as)))
  namespaces := bindings as
  content := []
  selfClosing := true

/-- What is recorded in a start tag. -/
def tagReports (opened : LexicalName) (c : StaticContext) (as : List TagAttribute) : List Diagnostic :=
  as.flatMap allReports ++ ((element opened c as).name.reports ++
    (element opened c as).attributes.flatMap fun a => a.name.reports)

/-- No two attributes of the tag bind the same qualifier or have the same name. -/
structure Distinct (c : StaticContext) (as : List TagAttribute) : Prop where
  keys : ((bindings as).map NamespaceBinding.key).Nodup
  names : ((element ⟨none, ""⟩ c as).attributes.map (·.name.expanded)).Nodup

theorem keys_nodup {bs : List NamespaceBinding} (h : (bs.map NamespaceBinding.key).Nodup) :
    ((bs.map fun b => (b.key, b.uri)).map Prod.fst).Nodup := by
  rw [List.map_map]
  exact h

theorem bindings_perm (hp : as.Perm bs) : (bindings as).Perm (bindings bs) := hp.filterMap _

/-- The namespaces of the tag may be bound in any order. -/
theorem bindings_alike (hd : Distinct c as) (hp : as.Perm bs) :
    (c.binding (bindings as)).Alike (c.binding (bindings bs)) :=
  StaticContext.bindAll_perm ((bindings_perm hp).map _) (keys_nodup hd.keys) c

theorem name_element (hd : Distinct c as) (hp : as.Perm bs) (opened : LexicalName) :
    (element opened c bs).name = (element opened c as).name := by
  have halike := bindings_alike hd hp
  exact (congrArg _ halike.elementNamespace?).trans (opened.resolvedIn_eq halike _)

theorem attributes_element (hd : Distinct c as) (hp : as.Perm bs) (opened : LexicalName) :
    (element opened c as).attributes.Perm (element opened c bs).attributes := by
  have hresolved : (fun a : RawAttribute => a.resolvedIn (c.binding (bindings bs))) =
      fun a => a.resolvedIn (c.binding (bindings as)) :=
    funext fun a => a.resolvedIn_eq (bindings_alike hd hp)
  unfold element
  rw [hresolved]
  exact (hp.filterMap _).map _

section

variable {e : DirElement Expr} {opened : LexicalName}

theorem name_of_map (he : e.map (Expr.moved nowhere) nowhere = element opened c as) :
    e.name = (element opened c as).name := (congrArg DirElement.name he :)

theorem attributes_of_map (he : e.map (Expr.moved nowhere) nowhere = element opened c as) :
    e.attributes.map DirAttribute.placeless = (element opened c as).attributes :=
  congrArg DirElement.attributes he

theorem namespaces_of_map (he : e.map (Expr.moved nowhere) nowhere = element opened c as) :
    e.namespaces = bindings as := congrArg DirElement.namespaces he

end

theorem Distinct.perm (h : Distinct c as) (hp : as.Perm bs) : Distinct c bs where
  keys := ((bindings_perm hp).map _).nodup_iff.1 h.keys
  names := ((attributes_element h hp _).map _).nodup_iff.1 h.names

/-- The same is recorded in whatever order the attributes are read. -/
theorem tagReports_perm (hd : Distinct c as) (hp : as.Perm bs) (opened : LexicalName) :
    (tagReports opened c as).Perm (tagReports opened c bs) := by
  unfold tagReports
  rw [name_element hd hp]
  exact (hp.flatMap_right _).append (((attributes_element hd hp opened).flatMap_right _).append_left _)

/-- A start tag is read as what it is written as, the whole tag before its names are resolved. -/
theorem reports_startTag (hclose : EndsTag close) (hsize : as.length ≤ f.size)
    (hread : ReadInTurn saved close (singleWithin k) f as) (hd : Distinct f.context as) (opened : LexicalName)
    (offset : Nat) :
    Parser.Reports f (.at (allThen as close) ⟨.tag, saved⟩) (startTag (singleWithin k) opened offset)
      (fun e => e.map (Expr.moved nowhere) nowhere = element opened f.context as)
      (tagReports opened f.context as) (f.binding (bindings as)) (.at close ⟨.tag, saved⟩) := by
  have hempty : (((TagAttributes.mk [] []).namespaces ++ bindings as).map NamespaceBinding.key).Nodup := hd.keys
  have hattributes := reports_iterate (reports_attributes hclose hsize hread hempty (Nat.lt_succ_of_le hsize))
  refine reports_bind hattributes fun tag htag => ?_
  obtain ⟨raw, namespaces⟩ := tag
  obtain ⟨hraw, rfl⟩ := TagAttributes.mk.inj htag
  -- The attributes have been read at places of their own, but their names do not depend on that.
  have hresolved : (raw.map fun a => (a.resolvedIn (f.binding (bindings as)).context).placeless) =
      (element opened f.context as).attributes := by
    have hraw' : raw.map (RawAttribute.moved nowhere) = raws as := hraw
    rw [element, ← hraw', List.map_map]
    rfl
  have hnames : (raw.map fun a => (a.resolvedIn (f.binding (bindings as)).context).name.expanded) =
      (element opened f.context as).attributes.map (·.name.expanded) := by
    rw [← hresolved, List.map_map]
    rfl
  have hreports : (raw.flatMap fun a => (a.resolvedIn (f.binding (bindings as)).context).name.reports) =
      (element opened f.context as).attributes.flatMap (·.name.reports) := by
    rw [← hresolved, List.flatMap_map]
    rfl
  refine reports_bind (reports_elementName opened offset) fun name hname => ?_
  rw [← hreports]
  refine reports_before (reports_resolveAttributes (hnames ▸ hd.names) fun _ _ => List.not_mem_nil)
    fun attributes hattributes => ?_
  refine reports_pure ?_
  rw [hname, hattributes, DirElement.map, List.map_map]
  exact congrArg (DirElement.mk _ · _ _ _) hresolved

end TagAttribute

/-! ### Elements -/

/-- Elements that differ at most in the order of their attributes and namespaces, and in the offsets in
their start tags. -/
structure DirElement.Reordered (e e' : DirElement Expr) : Prop where
  name : e'.name = e.name
  attributes : (e.attributes.map DirAttribute.placeless).Perm (e'.attributes.map DirAttribute.placeless)
  namespaces : e.namespaces.Perm e'.namespaces
  content : e'.content = e.content
  selfClosing : e'.selfClosing = e.selfClosing

/-- Why a parser stops, wherever that is. -/
def Stop.placeless : Stop → Stop
  | .fatal d => .fatal (d.moved nowhere)
  | .exhausted => .exhausted

/-- Two runs end at one place with elements that differ at most in their order, or both stop for one
reason. They have recorded the same, offsets and order aside. -/
inductive EndReordered : EStateM.Result Stop ParserState Expr → EStateM.Result Stop ParserState Expr → Prop where
  | element {e e' : DirElement Expr} {s s' : ParserState} (offset : Nat) (module : ModuleId)
      (reordered : e.Reordered e') (told : s.told.Perm s'.told)
      (place : s'.Stands s.frame (.at s.scan.cursor.rest s.scan.stack)) :
      EndReordered (.ok (.mk (.dirElement e) offset module) s) (.ok (.mk (.dirElement e') offset module) s')
  | stop {x x' : Stop} {s s' : ParserState} (same : x.placeless = x'.placeless) (told : s.told.Perm s'.told) :
      EndReordered (.error x s) (.error x' s')

section

variable {f f₁ : Frame} {l : Place} {tag : List Char} {stack : StateStack} {s s' : ParserState}
  {single : Parser Expr} {opened : LexicalName} {n offset : Nat}

theorem ParserState.Stands.self (s : ParserState) : s.Stands s.frame (.at s.scan.cursor.rest s.scan.stack) :=
  ⟨.refl _, rfl, rfl, rfl, fun _ h => nomatch h⟩

theorem ParserState.Stands.alike (h : s.Stands f l) {c : StaticContext} (hc : c.Alike f.context) :
    s.Stands { f with context := c } l := ⟨hc.trans h.1, h.2⟩

/-- A text that begins with a start tag is read up to behind the name. -/
theorem stands_behindName {n : SimpleName} {rest : List Char} (text : String) (config : Config)
    (htext : text.toList = '<' :: (n.chars ++ rest)) (hends : EndsTagName rest) :
    ∃ s, eat elementOpen (.ofText text config) = .ok true s ∧ s.told = [] ∧
      s.Stands (ParserState.ofText text config).frame
        ⟨rest, ⟨.tag, [.operator]⟩, some [.qualifiedName ⟨none, n.text⟩]⟩ := by
  have htake : Takes .expression ('<' :: (n.chars ++ rest)) elementOpen rest [.qualifiedName ⟨none, n.text⟩] :=
    takes_startTag hends (by decide)
  have hbegin : (ParserState.ofText text config).At (ParserState.ofText text config).frame
      (.at ('<' :: (n.chars ++ rest)) (.ofState .expression)) := ⟨rfl, htext, rfl, fun _ h => nomatch h⟩
  obtain ⟨_, s, hs, rfl, hat⟩ := reads_eat htake _ hbegin
  have hcontext : s.context = (ParserState.ofText text config).context := congrArg Frame.context hat.frame
  refine ⟨s, hs, congrArg (List.map _) (recordsNothing_scan _ _ _ _ hs), hcontext ▸ .refl _, ?_⟩
  rw [hcontext]
  exact hat

/-- The frame of an element is left behind it. -/
def leave : EStateM.Result Stop ParserState Expr → EStateM.Result Stop ParserState Expr
  | .ok e s => .ok e { s with context := s.context.popFrame, depth := s.depth - 1 }
  | .error x s => .error x s

/-- What is read behind the name of an element, one level deeper and with its own namespaces. -/
theorem dirElementWithin_succ (single : Parser Expr) (n offset : Nat)
    (hs : s.Stands f ⟨tag, stack, some [.qualifiedName opened]⟩) :
    ∃ inner : ParserState, inner.Stands f.inside (.at tag stack) ∧ inner.told = s.told ∧
      dirElementWithin single (n + 1) offset s = if f.maxDepth ≤ f.depth then
        .error (.fatal (.nesting f.maxDepth inner.scan.nextOffset)) { inner with context := s.context }
      else leave (elementInFrame single (dirElementWithin single n) opened offset inner) := by
  obtain ⟨name, s₁, hname, hopened, hs₁⟩ : ∃ name s₁, capturedQualifiedName 0 s = .ok name s₁ ∧ name = opened ∧
      s₁.At { f with context := s.context } ⟨tag, stack, some [.qualifiedName opened]⟩ :=
    reads_captured (fun captures => captures.qualifiedName 0) s hs.2
  subst hopened
  have hrecorded : s₁.recorded = s.recorded := recordsNothing_observe _ _ s name s₁ hname
  have hcontext : s₁.context = s.context := congrArg Frame.context hs₁.frame
  have hdepth : s₁.depth = f.depth := congrArg Frame.depth hs₁.frame
  have hlimit : s₁.maxDepth = f.maxDepth := congrArg Frame.maxDepth hs₁.frame
  let inner : ParserState := { s₁ with context := s₁.context.pushFrame, depth := s₁.depth + 1 }
  refine ⟨inner, ⟨?_, ?_, hs₁.rest, hs₁.stack, fun _ h => nomatch h⟩, congrArg (List.map _) hrecorded, ?_⟩
  · exact (hcontext ▸ hs.1).pushFrame
  · exact congrArg (fun g : Frame => { g with context := s₁.context.pushFrame, depth := g.depth + 1 }) hs₁.frame
  · refine (bind_of_ok hname).trans ?_
    let deeper : ParserState := { s₁ with depth := s₁.depth + 1 }
    have hdeeper : f.maxDepth ≤ f.depth ↔ deeper.depth > deeper.maxDepth := by
      change _ ↔ s₁.depth + 1 > s₁.maxDepth
      omega
    -- The level is tested before the namespaces get a frame of their own.
    change (if deeper.depth > deeper.maxDepth then _ else _ : Parser Expr) deeper = _
    by_cases htoo : f.maxDepth ≤ f.depth
    · rw [if_pos (hdeeper.1 htoo), if_pos htoo, ← hlimit, ← hcontext]
      rfl
    · rw [if_neg (mt hdeeper.2 htoo), if_neg htoo]
      let body : Parser Expr := elementInFrame single (dirElementWithin single n) name offset
      have hframe : (do
          amend StaticContext.pushFrame
          let e ← body
          amend StaticContext.popFrame
          return e : Parser Expr) deeper = (do
          let e ← body
          amend StaticContext.popFrame
          return e : Parser Expr) inner := rfl
      change _ = leave (body inner)
      cases hbody : body inner with
      | ok e t => exact (bind_of_ok (hframe.trans (bind_of_ok hbody))).trans rfl
      | error x t => exact bind_of_error (hframe.trans (bind_of_error hbody))

theorem EndReordered.leave {r r' : EStateM.Result Stop ParserState Expr} (h : EndReordered r r') :
    EndReordered (leave r) (leave r') := by
  cases h with
  | element offset module he htold hplace =>
    refine .element offset module he htold ⟨hplace.1.popFrame, ?_, hplace.2.rest, hplace.2.stack, fun _ h => nomatch h⟩
    exact congrArg (fun g : Frame => { g with context := g.context.popFrame, depth := g.depth - 1 }) hplace.2.frame
  | stop hx htold => exact .stop hx htold

end

namespace TagAttribute

/-- The element has been read with all the namespaces in scope that its start tag binds: its names are
resolved with them, and the parser of its content has begun with them. -/
structure ReadInScope (f : Frame) (saved : List LexicalState) (close : List Char)
    (content : Parser (Option (List (DirContent Expr)))) (opened : LexicalName) (as : List TagAttribute)
    (e : DirElement Expr) : Prop where
  name : e.name = (element opened f.context as).name
  attributes : e.attributes.map DirAttribute.placeless = (element opened f.context as).attributes
  namespaces : e.namespaces = bindings as
  resolves : ∀ b ∈ bindings as, (f.context.binding (bindings as)).resolve? b.key =
    if b.uri = "" then none else some b.uri
  content : ∃ s content? s₁, s.Stands (f.binding (bindings as)) (.at close ⟨.tag, saved⟩) ∧
    content s = .ok content? s₁ ∧ e.content = content?.getD []

section

variable {f : Frame} {saved : List LexicalState} {close : List Char} {k n offset : Nat}
  {opened : LexicalName} {as bs : List TagAttribute} {c : StaticContext} {s s' : ParserState} {e e' : DirElement Expr}

/-- Start tags that differ in the order of their attributes are read as elements that do. -/
theorem reordered_holding (hd : Distinct c as) (hp : as.Perm bs)
    (he : e.map (Expr.moved nowhere) nowhere = element opened c as)
    (he' : e'.map (Expr.moved nowhere) nowhere = element opened c bs)
    (content? : Option (List (DirContent Expr))) : (e.holding content?).Reordered (e'.holding content?) where
  name := (name_of_map he').trans ((name_element hd hp opened).trans (name_of_map he).symm)
  attributes := by
    change (e.attributes.map _).Perm (e'.attributes.map _)
    rw [attributes_of_map he, attributes_of_map he']
    exact attributes_element hd hp opened
  namespaces := by
    change e.namespaces.Perm e'.namespaces
    rw [namespaces_of_map he, namespaces_of_map he']
    exact bindings_perm hp
  content := rfl
  selfClosing := rfl

/-- An element is read up to the end of its start tag. What is read from there on is its content. -/
theorem dirElementWithin_behindTag (n offset : Nat)
    (hs : s.Stands f ⟨allThen as close, ⟨.tag, saved⟩, some [.qualifiedName opened]⟩)
    (hdepth : f.depth < f.maxDepth) (hclose : EndsTag close) (hsize : as.length ≤ f.size)
    (hd : Distinct f.inside.context as) (hread : ReadInTurn saved close (singleWithin k) f.inside as) :
    ∃ (tag : DirElement Expr) (s₁ : ParserState), tag.map (Expr.moved nowhere) nowhere = element opened f.inside.context as ∧
      s₁.Stands (f.inside.binding (bindings as)) (.at close ⟨.tag, saved⟩) ∧
      s₁.told.Perm (s.told ++ tagReports opened f.inside.context as) ∧
      dirElementWithin (singleWithin k) (n + 1) offset s = leave ((do
        let content? ← tagContent (singleWithin k) (dirElementWithin (singleWithin k) n) opened
        node (.dirElement (tag.holding content?)) offset : Parser Expr) s₁) := by
  obtain ⟨inner, hinner, hsame, hrun⟩ :=
    dirElementWithin_succ (singleWithin k) n offset hs
  obtain ⟨tag, s₁, htag, helement, hs₁, htold⟩ :=
    reports_startTag (f := f.inside) hclose hsize hread hd opened offset inner hinner
  rw [hsame] at htold
  refine ⟨tag, s₁, helement, hs₁, htold, ?_⟩
  rw [hrun, if_neg (Nat.not_le_of_lt hdepth), elementInFrame_eq, bind_of_ok htag]

/-- The content of an element is read alike whatever the order of its attributes. -/
theorem endReordered_behindTag {tag tag' : DirElement Expr} {l : Place} (hs : s.Stands f l) (hs' : s'.Stands f l)
    (htold : s.told.Perm s'.told)
    (htags : ∀ content?, (tag.holding content?).Reordered (tag'.holding content?)) :
    EndReordered
      ((do
        let content? ← tagContent (singleWithin k) (dirElementWithin (singleWithin k) n) opened
        node (.dirElement (tag.holding content?)) offset : Parser Expr) s)
      ((do
        let content? ← tagContent (singleWithin k) (dirElementWithin (singleWithin k) n) opened
        node (.dirElement (tag'.holding content?)) offset : Parser Expr) s') := by
  have hrounds (n : Nat) : (reordered f.maxDepth s.recorded s'.recorded).rounds.like n n :=
    ⟨Nat.le_refl n, fun _ => rfl⟩
  have hsingle := pairs_singleWithin (hrounds k)
  have hinner := elementsAgree_dirElementWithin hsingle (hrounds n)
  -- Both runs read the same text from here on. They differ in what they have recorded, and in its order only.
  have hends := (agree_tagContent hsingle hinner opened).follows not_false s s' (near_of_stands hs hs')
  have htoldEnd {t t' : ParserState} (h : (reordered f.maxDepth s.recorded s'.recorded).Records t.recorded
      t'.recorded) : t.told.Perm t'.told :=
    (List.perm_append_left_iff s.told).1 ((htold.append_right _).trans (told_of_records h))
  cases hcontent : tagContent (singleWithin k) (dirElementWithin (singleWithin k) n) opened s with
  | error x t =>
    rw [hcontent] at hends
    obtain ⟨hraised, -⟩ | ⟨t', hcontent', hrecords, -⟩ := hends trivial
    · exact hraised.elim
    · rw [bind_of_error hcontent, bind_of_error hcontent']
      exact .stop rfl (htoldEnd hrecords)
  | ok content? t =>
    rw [hcontent] at hends
    obtain ⟨hon, -⟩ | ⟨-, content?', t', hcontent', hlike, hnear⟩ := hends
    · exact hon.elim
    obtain rfl := eq_of_likeContent hlike
    rw [bind_of_ok hcontent, bind_of_ok hcontent']
    have hmodule : t'.module = t.module := hnear.module
    change EndReordered (.ok ⟨_, offset, t.module⟩ t) (.ok ⟨_, offset, t'.module⟩ t')
    rw [hmodule]
    exact .element offset t.module (htags _) (htoldEnd hnear.recorded) (stands_of_near hnear (.self t))

/-- What the start tag of an element binds is in scope for all of its names and for its content. -/
theorem readInScope (hs : s.Stands f ⟨allThen as close, ⟨.tag, saved⟩, some [.qualifiedName opened]⟩)
    (hclose : EndsTag close) (hsize : as.length ≤ f.size)
    (hd : Distinct f.inside.context as) (hread : ReadInTurn saved close (singleWithin k) f.inside as)
    {x : Expr} {t : ParserState} (hrun : dirElementWithin (singleWithin k) (n + 1) offset s = .ok x t) :
    ∃ e, x.kind = .dirElement e ∧ ReadInScope f.inside saved close
      (tagContent (singleWithin k) (dirElementWithin (singleWithin k) n) opened) opened as e := by
  have hdepth : f.depth < f.maxDepth := by
    obtain ⟨inner, -, -, hsucc⟩ := dirElementWithin_succ (singleWithin k) n offset hs
    by_contra htoo
    rw [hsucc, if_pos (Nat.le_of_not_lt htoo)] at hrun
    cases hrun
  obtain ⟨tag, s₁, htag, hs₁, -, hbehind⟩ := dirElementWithin_behindTag n offset hs hdepth hclose hsize hd hread
  rw [hbehind] at hrun
  cases hcontent : tagContent (singleWithin k) (dirElementWithin (singleWithin k) n) opened s₁ with
  | error y u =>
    rw [bind_of_error hcontent] at hrun
    cases hrun
  | ok content? u =>
    rw [bind_of_ok hcontent] at hrun
    cases hrun
    have hresolves : ∀ b ∈ bindings as, (f.inside.context.binding (bindings as)).resolve? b.key =
        if b.uri = "" then none else some b.uri :=
      fun b hb => StaticContext.resolve?_bindAll_of_mem (List.mem_map_of_mem hb) (keys_nodup hd.keys) _
    have hname := name_of_map htag
    have hattributes := attributes_of_map htag
    have hnamespaces := namespaces_of_map htag
    exact ⟨tag.holding content?, rfl, hname, hattributes, hnamespaces, hresolves, s₁, content?, u, hs₁, hcontent, rfl⟩

/-- The order of the attributes of a start tag matters for nothing but what their values are read as. -/
theorem reordering_attributes_keeps_names
    (hs : s.Stands f ⟨allThen as close, ⟨.tag, saved⟩, some [.qualifiedName opened]⟩)
    (hs' : s'.Stands f ⟨allThen bs close, ⟨.tag, saved⟩, some [.qualifiedName opened]⟩)
    (htold : s.told.Perm s'.told) (hclose : EndsTag close) (hsize : as.length ≤ f.size) (hp : as.Perm bs)
    (hd : Distinct f.inside.context as) (hread : ReadInTurn saved close (singleWithin k) f.inside as)
    (hread' : ReadInTurn saved close (singleWithin k) f.inside bs) :
    EndReordered (dirElementWithin (singleWithin k) (n + 1) offset s)
        (dirElementWithin (singleWithin k) (n + 1) offset s') ∧
      ∀ x t, dirElementWithin (singleWithin k) (n + 1) offset s = .ok x t →
        ∃ e, x.kind = .dirElement e ∧ ReadInScope f.inside saved close
          (tagContent (singleWithin k) (dirElementWithin (singleWithin k) n) opened) opened as e := by
  refine ⟨?_, fun x t hrun => readInScope hs hclose hsize hd hread hrun⟩
  by_cases hdepth : f.depth < f.maxDepth
  · obtain ⟨tag, s₁, htag, hs₁, htold₁, hrun⟩ :=
      dirElementWithin_behindTag n offset hs hdepth hclose hsize hd hread
    obtain ⟨tag', s₁', htag', hs₁', htold₁', hrun'⟩ :=
      dirElementWithin_behindTag n offset hs' hdepth hclose (hp.length_eq ▸ hsize) (hd.perm hp) hread'
    have htoldTag : s₁.told.Perm s₁'.told :=
      htold₁.trans ((htold.append (tagReports_perm hd hp opened)).trans htold₁'.symm)
    rw [hrun, hrun']
    exact (endReordered_behindTag hs₁ (hs₁'.alike (bindings_alike hd hp)) htoldTag
      (reordered_holding hd hp htag htag')).leave
  · obtain ⟨inner, -, hsame, hrun⟩ :=
      dirElementWithin_succ (singleWithin k) n offset hs
    obtain ⟨inner', -, hsame', hrun'⟩ :=
      dirElementWithin_succ (singleWithin k) n offset hs'
    rw [hrun, hrun', if_pos (Nat.le_of_not_lt hdepth), if_pos (Nat.le_of_not_lt hdepth)]
    refine .stop rfl ?_
    change inner.told.Perm inner'.told
    rw [hsame, hsame']
    exact htold

end

/-- The value of an attribute that is a step to the children named `p:x`, with a namespace for `p`. -/
def childStep : List (AttributeValuePart Expr) :=
  [.enclosed (.mk (.path .relative [.mk (.step .child (.name (.name ⟨some "p", "x", some "u"⟩)) []) 0 .main]) 0 .main)]

def isChildStep : List (AttributeValuePart Expr) → Bool
  | [.enclosed (.mk (.path .relative [.mk (.step .child (.name (.name name)) []) _ .main]) _ .main)] =>
    name == ⟨some "p", "x", some "u"⟩
  | _ => false

theorem eq_childStep {value : List (AttributeValuePart Expr)} (h : isChildStep value) :
    value.map (AttributeValuePart.map (Expr.moved nowhere)) = childStep := by
  unfold isChildStep at h
  split at h
  · obtain rfl := beq_iff_eq.1 h
    simp only [List.map_cons, List.map_nil, AttributeValuePart.map, Expr.moved_mk, ExprKind.map]
    rfl
  · cases h

/-- The parser in front of the value of the last attribute, with the namespace bound. -/
def inTag (text : String) : ParserState :=
  let s := ParserState.ofText text .standard
  { s with
    scan := { s.scan with
      cursor := { s.scan.cursor with rest := "\"\x7bp:x\x7d\"/>".toList }
      stack := ⟨.tag, [.operator]⟩ }
    context := s.context.pushFrame.bind "p" "u"
    depth := 1 }

/-- An attribute with one space in front of it, in double quotes. -/
def spaced (name : LexicalName) (hname : QName.isLexical ⟨name.qualifier, name.localPart, none⟩) (body : String)
    (value : List (AttributeValuePart Expr)) : TagAttribute where
  space := [' ']
  name := name
  before := []
  after := []
  quote := '"'
  body := body.toList
  value := value
  reports := []
  space_ne := List.cons_ne_nil _ _
  blank := List.forall_mem_singleton.2 rfl
  lexical := hname
  delimits := .inl rfl

def counted : TagAttribute := spaced ⟨some "p", "c"⟩ (by decide) "1" [.text "1"]

def declared : TagAttribute := spaced ⟨some "xmlns", "p"⟩ (by decide) "u" [.text "u"]

def enclosing : TagAttribute := spaced ⟨none, "b"⟩ (by decide) "\x7bp:x\x7d" childStep

theorem isLiteral_counted : counted.IsLiteral :=
  isLiteral_of_body (.literal '1' (by decide) (by decide) .nil) rfl rfl

theorem isLiteral_declared : declared.IsLiteral :=
  isLiteral_of_body (.literal 'u' (by decide) (by decide) .nil) rfl rfl

theorem readOnce_enclosing : enclosing.ReadOnce (inTag "<a p:c=\"1\" xmlns:p=\"u\" b=\"\x7bp:x\x7d\"/>").frame
    [.operator] "/>".toList (singleWithin 1) := by
  have htest : (match attributeValue (singleWithin 1) (inTag "<a p:c=\"1\" xmlns:p=\"u\" b=\"\x7bp:x\x7d\"/>") with
      | .ok value s₁ => isChildStep value && s₁.scan.cursor.rest == "/>".toList &&
          s₁.scan.stack == ⟨.tag, [.operator]⟩ && s₁.scan.extensions == Extensions.all && s₁.recorded.isEmpty
      | .error _ _ => false) = true := by decide +kernel
  split at htest
  · rename_i value s₁ hr
    simp only [Bool.and_eq_true, beq_iff_eq, List.isEmpty_iff] at htest
    obtain ⟨⟨⟨⟨hvalue, hrest⟩, hstack⟩, hextensions⟩, hrecorded⟩ := htest
    refine .of_run "<a p:c=\"1\" xmlns:p=\"u\" b=\"\x7bp:x\x7d\"/>" ⟨.refl _, rfl, rfl, rfl, fun _ h => nomatch h⟩
      ⟨rfl, by decide, by decide⟩ rfl hr (eq_childStep hvalue) hrest hstack hextensions ?_
    rw [ParserState.told, hrecorded]
    rfl
  · cases htest

/-- A namespace is declared in front of an attribute in its prefix or behind it. -/
theorem namespace_declared_behind_its_attribute :
    ∃ s s' : ParserState,
      eat elementOpen (.ofText "<a p:c=\"1\" xmlns:p=\"u\" b=\"\x7bp:x\x7d\"/>" .standard) = .ok true s ∧
      eat elementOpen (.ofText "<a xmlns:p=\"u\" p:c=\"1\" b=\"\x7bp:x\x7d\"/>" .standard) = .ok true s' ∧
      EndReordered (dirElementWithin (singleWithin 1) 1 0 s) (dirElementWithin (singleWithin 1) 1 0 s') := by
  let n : SimpleName := ⟨['a'], by decide⟩
  obtain ⟨s, hs, htold, hstands⟩ := stands_behindName (n := n) "<a p:c=\"1\" xmlns:p=\"u\" b=\"\x7bp:x\x7d\"/>" .standard
    (by decide) (endsTagName_allThen counted [declared, enclosing] "/>".toList)
  obtain ⟨s', hs', htold', hstands'⟩ := stands_behindName (n := n) "<a xmlns:p=\"u\" p:c=\"1\" b=\"\x7bp:x\x7d\"/>" .standard
    (by decide) (endsTagName_allThen declared [counted, enclosing] "/>".toList)
  have htolds : s.told.Perm s'.told := by rw [htold, htold']
  have hframe : (ParserState.ofText "<a xmlns:p=\"u\" p:c=\"1\" b=\"\x7bp:x\x7d\"/>" .standard).frame =
      (ParserState.ofText "<a p:c=\"1\" xmlns:p=\"u\" b=\"\x7bp:x\x7d\"/>" .standard).frame :=
    congrArg (Frame.mk _ _ _ _ · _) (by decide)
  rw [hframe] at hstands'
  have hcounted : counted.binding? = none := by decide
  have hdeclared : declared.binding? = some ⟨some "p", "u"⟩ := by decide
  generalize hf : (ParserState.ofText "<a p:c=\"1\" xmlns:p=\"u\" b=\"\x7bp:x\x7d\"/>" .standard).frame = f at hstands hstands'
  have hread : enclosing.ReadOnce (f.inside.binding [⟨some "p", "u"⟩]) [.operator] "/>".toList (singleWithin 1) := by
    rw [← hf]
    exact readOnce_enclosing
  have hsize : 3 ≤ f.size := by
    rw [← hf]
    decide
  refine ⟨s, s', hs, hs', (reordering_attributes_keeps_names hstands hstands' htolds (endsTag_empty _)
    hsize (.swap _ _ _) ⟨?_, ?_⟩ ?_ ?_).1⟩
  · decide
  · refine List.nodup_cons.2 ⟨fun hmem => ?_, List.nodup_cons.2 ⟨List.not_mem_nil, .nil⟩⟩
    have hlocal : "c" = "b" := congrArg ExpandedName.localPart (List.mem_singleton.1 hmem)
    exact absurd hlocal (by decide)
  · rw [ReadInTurn, ReadInTurn, ReadInTurn, hcounted, hdeclared]
    exact ⟨.inl isLiteral_counted, .inl isLiteral_declared, .inr hread, trivial⟩
  · rw [ReadInTurn, ReadInTurn, ReadInTurn, hcounted, hdeclared]
    exact ⟨.inl isLiteral_declared, .inl isLiteral_counted, .inr hread, trivial⟩

/-- The value of an attribute is read before the namespace is bound that is declared behind it. -/
theorem order_of_attributes_shows_in_values :
    ∃ m m', parseMainModule "<a b=\"\x7bp:x\x7d\" xmlns:p=\"u\"/>" .standard = .ok m ∧
      parseMainModule "<a xmlns:p=\"u\" b=\"\x7bp:x\x7d\"/>" .standard = .ok m' ∧
      m.module.unbound = ["p"] ∧ m.diagnostics.map (·.code) = [.unknownPrefix] ∧
      m'.module.unbound = [] ∧ m'.diagnostics = [] := by
  have hruns : (parseMainModule "<a b=\"\x7bp:x\x7d\" xmlns:p=\"u\"/>" .standard).toOption.any
        (fun m => m.module.unbound == ["p"] && m.diagnostics.map (·.code) == [.unknownPrefix]) ∧
      (parseMainModule "<a xmlns:p=\"u\" b=\"\x7bp:x\x7d\"/>" .standard).toOption.any
        (fun m => m.module.unbound == [] && m.diagnostics == []) := by
    unfold parseMainModule
    rw [parseModule_eq, parseModule_eq, String.toList_ofList, String.toList_ofList]
    decide +kernel
  obtain ⟨m, hm, htest⟩ := exists_ok_of_any _ hruns.1
  obtain ⟨m', hm', htest'⟩ := exists_ok_of_any _ hruns.2
  obtain ⟨hunbound, hcodes⟩ := Bool.and_eq_true_iff.1 htest
  obtain ⟨hunbound', hnothing⟩ := Bool.and_eq_true_iff.1 htest'
  exact ⟨m, m', hm, hm', beq_iff_eq.1 hunbound, beq_iff_eq.1 hcodes, beq_iff_eq.1 hunbound', beq_iff_eq.1 hnothing⟩

end TagAttribute

end XQuerySyntax
