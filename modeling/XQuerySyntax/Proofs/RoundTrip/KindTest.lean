import XQuerySyntax.Proofs.RoundTrip.Layout

/-! Kind tests are read as they are written, before an operand and in a type: the keyword tells the kind,
and the arguments behind it are read in a type. -/

namespace XQuerySyntax

open XQuerySyntax.Parser Grammar

/-- A place in a sequence type. -/
def Place.inType (saved : List LexicalState) (text : List Char) : Place :=
  .at text ⟨.kindTest, saved⟩

namespace Grammar

variable {f : Frame} {saved : List LexicalState} {text rest : List Char} {pieces : List Piece}

/-! ### Arguments of kind tests -/

theorem reads_elementTestName (saved : List LexicalState) {isElement : Bool} {name : ElementName}
    (hname : name.ResolvesIn f.context (if isElement then f.context.elementNamespace? else none))
    (h : Laid (name.piece :: pieces) text rest) :
    ∃ mid, Laid pieces mid rest∧
      Reads f (.inType saved text) (elementTestName isElement) (fun n => n = name)
        (.inType saved mid) := by
  cases name with
  | wildcard =>
    obtain ⟨mid, hmid, htake⟩ :=
      h.takes_mark .kindTest Terminal.kindWildcard rfl (by rfl)
    exact ⟨mid, hmid, reads_ifEat htake (reads_forget (reads_pure rfl))⟩
  | name n =>
    obtain ⟨mid, hmid, htake⟩ := h.takes_name .kindTest Terminal.kindName rfl (by rfl)
    have hstar := h.declines_front .kindTest Terminal.kindWildcard (by rfl)
    refine ⟨mid, hmid, reads_ifEat_declined hstar (reads_ifEat htake ?_)⟩
    refine reads_bind reads_start fun offset _ => reads_caughtName ?_
    cases isElement with
    | true =>
      refine reads_bind (reads_elementName hname offset) fun name hn => ?_
      rw [hn]
      exact reads_pure rfl
    | false =>
      refine reads_bind (reads_resolveName hname offset) fun name hn => ?_
      rw [hn]
      exact reads_pure rfl

/-- The closing parenthesis, or a comma, is not taken for the other. -/
theorem commaView_decline :
    Scan.declinesAt .kindTest Terminal.kindComma (Piece.front (.mark ")")) ∧
      Scan.declinesAt .kindTest Terminal.kindNillable (Piece.front (.mark ")")) := by
  rw [Scan.declinesAt_eq]
  decide

theorem reads_close (f : Frame) (saved : List LexicalState)
    (h : Laid (.mark ")" :: pieces) text rest) :
    ∃ mid, Laid pieces mid rest∧
      Reads f (.inType saved text) (expect Terminal.kindClose) (fun _ => True)
        (.inType saved mid) := by
  obtain ⟨mid, hmid, htake⟩ := h.takes_mark .kindTest Terminal.kindClose rfl (by rfl)
  exact ⟨mid, hmid, reads_leave (reads_expect htake)⟩

/-- A type annotation behind its comma, up to the closing parenthesis. -/
theorem reads_contentType (saved : List LexicalState) {isElement : Bool} {type : ContentType}
    (htype : type.typeName.ResolvesIn f.context f.context.elementNamespace?)
    (hnillable : type.nillable → isElement)
    (h : Laid (type.pieces ++ .mark ")" :: pieces) text rest) :
    ∃ mid, Laid (.mark ")" :: pieces) mid rest ∧
      Reads f (.inType saved text) (do
        expect Terminal.kindName
        let offset ← start
        let typeName ← elementName (← capturedQualifiedName 0) offset
        let nillable ← if isElement then eat Terminal.kindNillable else pure false
        return ContentType.mk typeName nillable) (fun t => t = type) (.inType saved mid) := by
  obtain ⟨typeName, nillable⟩ := type
  obtain ⟨behind, hbehind, hname⟩ :=
    Laid.takes_name h .kindTest Terminal.kindName rfl (by rfl)
  have hread {mid : List Char}
      (hyes : isElement = true → Reads f (.inType saved behind) (eat Terminal.kindNillable)
        (fun b => b = nillable) (.inType saved mid))
      (hno : isElement = false → nillable = false ∧ mid = behind) :
      Reads f (.inType saved text) (do
        expect Terminal.kindName
        let offset ← start
        let typeName ← elementName (← capturedQualifiedName 0) offset
        let nillable ← if isElement then eat Terminal.kindNillable else pure false
        return ContentType.mk typeName nillable) (fun t => t = ⟨typeName, nillable⟩)
        (.inType saved mid) := by
    refine reads_bind (reads_expect hname) fun _ _ => ?_
    refine reads_bind reads_start fun offset _ => reads_caughtName ?_
    refine reads_bind (reads_elementName htype offset) fun n hn => ?_
    rw [hn]
    extract_lets answer
    split
    · rename_i helement
      refine reads_bind (hyes helement) fun b hb => ?_
      rw [hb]
      exact reads_pure rfl
    · rename_i helement
      obtain ⟨rfl, rfl⟩ := hno (Bool.eq_false_iff.2 helement)
      exact reads_pure rfl
  cases nillable with
  | true =>
    obtain ⟨mid, hmid, hmark⟩ := hbehind.takes_mark .kindTest
      Terminal.kindNillable rfl (by rfl)
    refine ⟨mid, hmid, hread (fun _ => reads_leave (reads_eat hmark)) fun helement => ?_⟩
    rw [hnillable rfl] at helement
    cases helement
  | false =>
    have hmark := hbehind.declines_front .kindTest Terminal.kindNillable
      commaView_decline.2
    exact ⟨behind, hbehind, hread (fun _ => reads_eat_declined hmark) fun _ => ⟨rfl, rfl⟩⟩

/-- The arguments of an element or attribute test with the parenthesis behind them. -/
theorem reads_elementTestArgs (saved : List LexicalState) {isElement : Bool}
    {name : Option ElementName} {type : Option ContentType} (hw : TestWellWritten f.context isElement name type)
    (h : Laid (testPieces name type ++ .mark ")" :: pieces) text rest) :
    ∃ mid, Laid pieces mid rest ∧
      Reads f (.inType saved text) (elementTestArgs isElement) (fun args => args = (name, type))
        (.inType saved mid) := by
  cases name with
  | none =>
    obtain rfl := hw.named rfl
    obtain ⟨mid, hmid, htake⟩ := Laid.takes_mark h .kindTest Terminal.kindClose rfl (by rfl)
    exact ⟨mid, hmid, reads_ifEat htake (reads_forget (reads_pure rfl))⟩
  | some name =>
    obtain ⟨behind, hbehind, hname⟩ := reads_elementTestName saved (hw.resolves name rfl) h
    have hclose : Declines .kindTest text Terminal.kindClose := by
      cases name with
      | name n => exact Laid.declines_front h .kindTest Terminal.kindClose (by rfl)
      | wildcard => exact Laid.declines_front h .kindTest Terminal.kindClose (by rfl)
    cases type with
    | none =>
      obtain ⟨mid, hmid, hend⟩ := reads_close f saved hbehind
      have hcomma := hbehind.declines_front .kindTest Terminal.kindComma
        commaView_decline.1
      refine ⟨mid, hmid, reads_ifEat_declined hclose ?_⟩
      refine reads_bind hname fun n hn => ?_
      refine reads_bind (reads_whenEats_declined hcomma) fun t ht => ?_
      refine reads_bind hend fun _ _ => ?_
      rw [hn, ht]
      exact reads_pure rfl
    | some type =>
      obtain ⟨after, hafter, hcomma⟩ := hbehind.takes_mark .kindTest
        Terminal.kindComma rfl (by rfl)
      obtain ⟨last, hlast, htype⟩ := reads_contentType saved (hw.typed type rfl)
        (hw.nillable type rfl) hafter
      obtain ⟨mid, hmid, hend⟩ := reads_close f saved hlast
      refine ⟨mid, hmid, reads_ifEat_declined hclose ?_⟩
      refine reads_bind hname fun n hn => ?_
      refine reads_bind (reads_whenEats hcomma (reads_forget htype)) fun t ht => ?_
      obtain ⟨_, rfl, rfl⟩ := ht
      refine reads_bind hend fun _ _ => ?_
      rw [hn]
      exact reads_pure rfl

/-- The argument of a schema test with the parenthesis behind it. -/
theorem reads_schemaTestName (saved : List LexicalState) (isElement : Bool) {name : QName}
    (hname : name.ResolvesIn f.context (if isElement then f.context.elementNamespace? else none))
    (h : Laid ([Piece.name name] ++ .mark ")" :: pieces) text rest) :
    ∃ mid, Laid pieces mid rest ∧
      Reads f (.inType saved text) (schemaTestName isElement) (fun n => n = name)
        (.inType saved mid) := by
  obtain ⟨behind, hbehind, htake⟩ :=
    Laid.takes_name h .kindTest Terminal.kindName rfl (by rfl)
  obtain ⟨mid, hmid, hclose⟩ := reads_close f saved hbehind
  have hend (n : QName) (hn : n = name) :
      Reads f (.inType saved behind) (do expect Terminal.kindClose; return n) (fun n => n = name)
        (.inType saved mid) := reads_bind hclose fun _ _ => reads_pure hn
  refine ⟨mid, hmid, ?_⟩
  refine reads_bind (reads_expect htake) fun _ _ => ?_
  refine reads_bind reads_start fun offset _ => reads_caughtName ?_
  cases isElement with
  | true => exact reads_bind (reads_elementName hname offset) hend
  | false => exact reads_bind (reads_resolveName hname offset) hend

/-- The target of a processing instruction if there is one, in front of the parenthesis. -/
theorem reads_target (saved : List LexicalState) {target : Option String}
    (h : Laid (target.toList.map .target ++ .mark ")" :: pieces) text rest) :
    ∃ mid, Laid (.mark ")" :: pieces) mid rest ∧
      Reads f (.inType saved text) processingInstructionTarget (fun t => t = target)
        (.inType saved mid) := by
  cases target with
  | none =>
    have hname := Laid.declines_front h .kindTest Terminal.kindNcname (by rfl)
    have hstring := Laid.declines_front h .kindTest Terminal.kindString (by rfl)
    exact ⟨text, h, reads_ifEat_declined hname (reads_ifEat_declined hstring (reads_pure rfl))⟩
  | some target =>
    obtain ⟨mid, hmid, htakes⟩ := Laid.takes_target h
    refine ⟨mid, hmid, ?_⟩
    rcases htakes with hname | ⟨written, hvalue, hname, hstring⟩
    · apply reads_ifEat hname
      refine reads_bind (reads_captured fun captures => captures.name 0) fun t ht => ?_
      rw [ht]
      exact reads_forget (reads_pure rfl)
    · apply reads_ifEat_declined hname
      apply reads_ifEat hstring
      refine reads_bind (reads_captured fun captures => captures.string 0) fun t ht => ?_
      rw [ht]
      exact reads_forget (reads_pure (congrArg some hvalue))

/-! ### Kind tests -/

/-- The keywords of kind tests and their rules, in the order in which they are tried. -/
def kindTable : List (String × Rule) :=
  [("document-node", Terminal.kindDocument), ("element", Terminal.kindElement),
    ("attribute", Terminal.kindAttribute), ("schema-element", Terminal.kindSchemaElement),
    ("schema-attribute", Terminal.kindSchemaAttribute),
    ("processing-instruction", Terminal.kindPi), ("comment", Terminal.kindComment),
    ("text", Terminal.kindText), ("namespace-node", Terminal.kindNamespaceNode),
    ("node", Terminal.kindNode)]

/-- A kind test is known by its keyword, before an operand and in a type. -/
theorem kindTable_distinct :
    (kindTable.all fun entry => kindTable.all fun other => entry.1 == other.1 ||
      ([LexicalState.expression, .kindTest].all fun state =>
        Scan.declinesEvery state other.2 (pairViews entry.1 "("))) = true := by
  rw [Scan.declinesEvery_eq]
  rfl

theorem kindTable_phrases :
    (kindTable.all fun entry => [LexicalState.expression, .kindTest].all fun state =>
      entry.2.extension = .core && entry.2.next = .goto .kindTest && isKeyword entry.1.toList &&
        entry.2.isPhrase state entry.1 ["("] []) = true := by
  decide +kernel

variable {state : LexicalState} {word : String} {args : List Piece} {r : Rule}

/-- The rule of the keyword takes it with its parenthesis, and no other rule of a kind test does. -/
theorem takes_kind (hstate : state ∈ [LexicalState.expression, .kindTest])
    (hmem : (word, r) ∈ kindTable) (h : Laid (callPieces word args ++ pieces) text rest) :
    ∃ mid, Laid (args ++ .mark ")" :: pieces) mid rest ∧ Takes state text r mid [] ∧
      r.next = .goto .kindTest ∧
        ∀ other ∈ kindTable, other.1 ≠ word → Declines state text other.2 := by
  have hphrase := List.all_eq_true.1 (List.all_eq_true.1 kindTable_phrases _ hmem) state hstate
  simp only [Bool.and_eq_true, decide_eq_true_eq] at hphrase
  obtain ⟨⟨⟨hcore, hnext⟩, hword⟩, hphrase⟩ := hphrase
  have htext : Laid (marks [word, "("] ++ (args ++ .mark ")" :: pieces)) text rest := by
    have heq : callPieces word args ++ pieces =
        marks [word, "("] ++ (args ++ .mark ")" :: pieces) := by simp [callPieces]
    rwa [heq] at h
  obtain ⟨mid, hmid, htake⟩ := htext.takes state r hcore hphrase (by rfl)
  refine ⟨mid, hmid, htake, hnext, fun other hother hne => ?_⟩
  have hdistinct := List.all_eq_true.1 (List.all_eq_true.1 kindTable_distinct _ hmem) other hother
  rw [Bool.or_eq_true] at hdistinct
  rcases hdistinct with heq | hdistinct
  · exact absurd (eq_of_beq heq).symm hne
  · exact (htext.begins_pair hword).declinesEvery (List.all_eq_true.1 hdistinct state hstate)

/-- Behind the keyword of a kind test comes its argument, in a type. -/
theorem reads_kind_argument {α : Type} {mid : List Char} {p : Parser α} {P : α → Prop} {l : Place}
    (hnext : r.next = .goto .kindTest) (h : Reads f (.inType saved mid) p P l) :
    Reads f ⟨mid, (⟨state, saved⟩ : StateStack).apply r.next, some []⟩ p P l := by
  rw [hnext]
  exact reads_forget h

/-- A test of an element is read alone, and as the root of a document. -/
theorem reads_root (saved : List LexicalState) {root : KindTest} (hw : RootWellWritten f.context root)
    (hstate : state ∈ [LexicalState.expression, .kindTest])
    (h : Laid (root.pieces ++ pieces) text rest) :
    ∃ mid, Laid pieces mid rest ∧
      Reads f (.at text ⟨state, saved⟩) kindTest (fun t => t = some root) (.inType saved mid) ∧
        Reads f (.at text ⟨state, saved⟩) documentTestRoot (fun t => t = some root)
          (.inType saved mid) := by
  cases hw with
  | element hw =>
    have hmem : ("element", Terminal.kindElement) ∈ kindTable := by simp [kindTable]
    obtain ⟨inside, hinside, htake, hnext, hother⟩ := takes_kind hstate hmem h
    have hdocument := hother ("document-node", Terminal.kindDocument) (by simp [kindTable]) (by decide)
    obtain ⟨mid, hmid, hargs⟩ := reads_elementTestArgs saved hw hinside
    refine ⟨mid, hmid, reads_ifEat_declined hdocument (reads_ifEat htake ?_), reads_ifEat htake ?_⟩
    all_goals
      refine reads_kind_argument hnext (reads_bind hargs fun args hargs => ?_)
      rw [hargs]
      exact reads_pure rfl
  | schemaElement hname =>
    have hmem : ("schema-element", Terminal.kindSchemaElement) ∈ kindTable := by simp [kindTable]
    obtain ⟨inside, hinside, htake, hnext, hother⟩ := takes_kind hstate hmem h
    have hdocument := hother ("document-node", Terminal.kindDocument) (by simp [kindTable]) (by decide)
    have helement := hother ("element", Terminal.kindElement) (by simp [kindTable]) (by decide)
    have hattribute := hother ("attribute", Terminal.kindAttribute) (by simp [kindTable]) (by decide)
    obtain ⟨mid, hmid, hargs⟩ := reads_schemaTestName saved true hname hinside
    refine ⟨mid, hmid, reads_ifEat_declined hdocument (reads_ifEat_declined helement
      (reads_ifEat_declined hattribute (reads_ifEat htake ?_))),
      reads_ifEat_declined helement (reads_ifEat htake ?_)⟩
    all_goals
      refine reads_kind_argument hnext (reads_bind hargs fun name hname => ?_)
      rw [hname]
      exact reads_pure rfl

/-- A kind test with nothing between its parentheses. -/
theorem reads_simpleKind {test : KindTest} (before : List (Rule × KindTest))
    {after : List (Rule × KindTest)} {inside : List Char}
    (hsplit : [(Terminal.kindComment, KindTest.comment), (Terminal.kindText, .text),
      (Terminal.kindNamespaceNode, .namespaceNode), (Terminal.kindNode, .anyKind)] =
        before ++ (r, test) :: after)
    (hheads : ∀ other ∈ kindTable.take 6, Declines state text other.2)
    (hbefore : ∀ o ∈ before, Declines state text o.1) (htake : Takes state text r inside [])
    (hnext : r.next = .goto .kindTest) (hinside : Laid (.mark ")" :: pieces) inside rest) :
    ∃ mid, Laid pieces mid rest ∧
      Reads f (.at text ⟨state, saved⟩) kindTest (fun t => t = some test) (.inType saved mid) := by
  obtain ⟨mid, hmid, hclose⟩ := reads_close f saved hinside
  refine ⟨mid, hmid, ?_⟩
  apply reads_ifEat_declined (hheads ("document-node", Terminal.kindDocument) (by simp [kindTable]))
  apply reads_ifEat_declined (hheads ("element", Terminal.kindElement) (by simp [kindTable]))
  apply reads_ifEat_declined (hheads ("attribute", Terminal.kindAttribute) (by simp [kindTable]))
  apply reads_ifEat_declined (hheads ("schema-element", Terminal.kindSchemaElement) (by simp [kindTable]))
  apply reads_ifEat_declined (hheads ("schema-attribute", Terminal.kindSchemaAttribute) (by simp [kindTable]))
  apply reads_ifEat_declined (hheads ("processing-instruction", Terminal.kindPi) (by simp [kindTable]))
  rw [hsplit]
  refine reads_bind (reads_eatFirst hbefore htake) fun o ho => ?_
  rw [ho]
  refine reads_kind_argument hnext (reads_bind hclose fun _ _ => ?_)
  exact reads_pure rfl

/-- A kind test is read before an operand and in a type. -/
theorem reads_kindTest (saved : List LexicalState) {test : KindTest} (hw : test.WellWritten f.context)
    (hstate : state ∈ [LexicalState.expression, .kindTest])
    (h : Laid (test.pieces ++ pieces) text rest) :
    ∃ mid, Laid pieces mid rest ∧
      Reads f (.at text ⟨state, saved⟩) kindTest (fun t => t = some test) (.inType saved mid) := by
  cases hw with
  | anyDocument =>
    have hmem : ("document-node", Terminal.kindDocument) ∈ kindTable := by simp [kindTable]
    obtain ⟨inside, hinside, htake, hnext, -⟩ := takes_kind hstate hmem h
    obtain ⟨mid, hmid, hclose⟩ := reads_close f saved hinside
    have hroot : Reads f (.inType saved inside) documentTestRoot (fun t => t = none)
        (.inType saved inside) := by
      have helement := hinside.declines_front .kindTest Terminal.kindElement (by rfl)
      have hschema := hinside.declines_front .kindTest Terminal.kindSchemaElement (by rfl)
      exact reads_ifEat_declined helement (reads_ifEat_declined hschema (reads_pure rfl))
    refine ⟨mid, hmid, reads_ifEat htake ?_⟩
    refine reads_kind_argument hnext (reads_bind hroot fun root hroot => ?_)
    refine reads_bind hclose fun _ _ => ?_
    rw [hroot]
    exact reads_pure rfl
  | document hw =>
    have hmem : ("document-node", Terminal.kindDocument) ∈ kindTable := by simp [kindTable]
    obtain ⟨inside, hinside, htake, hnext, -⟩ := takes_kind hstate hmem h
    have htypes : LexicalState.kindTest ∈ [LexicalState.expression, .kindTest] := by decide
    obtain ⟨behind, hbehind, -, hroot⟩ := reads_root saved hw htypes hinside
    obtain ⟨mid, hmid, hclose⟩ := reads_close f saved hbehind
    refine ⟨mid, hmid, reads_ifEat htake ?_⟩
    refine reads_kind_argument hnext (reads_bind hroot fun root hroot => ?_)
    refine reads_bind hclose fun _ _ => ?_
    rw [hroot]
    exact reads_pure rfl
  | root hw =>
    obtain ⟨mid, hmid, htest, -⟩ := reads_root saved hw hstate h
    exact ⟨mid, hmid, htest⟩
  | attributeTest hw =>
    have hmem : ("attribute", Terminal.kindAttribute) ∈ kindTable := by simp [kindTable]
    obtain ⟨inside, hinside, htake, hnext, hother⟩ := takes_kind hstate hmem h
    obtain ⟨mid, hmid, hargs⟩ := reads_elementTestArgs saved hw hinside
    refine ⟨mid, hmid, ?_⟩
    apply reads_ifEat_declined (hother ("document-node", Terminal.kindDocument) (by simp [kindTable]) (by decide))
    apply reads_ifEat_declined (hother ("element", Terminal.kindElement) (by simp [kindTable]) (by decide))
    apply reads_ifEat htake
    refine reads_kind_argument hnext (reads_bind hargs fun args hargs => ?_)
    rw [hargs]
    exact reads_pure rfl
  | schemaAttribute hname =>
    have hmem : ("schema-attribute", Terminal.kindSchemaAttribute) ∈ kindTable := by simp [kindTable]
    obtain ⟨inside, hinside, htake, hnext, hother⟩ := takes_kind hstate hmem h
    obtain ⟨mid, hmid, hargs⟩ := reads_schemaTestName saved false hname hinside
    refine ⟨mid, hmid, ?_⟩
    apply reads_ifEat_declined (hother ("document-node", Terminal.kindDocument) (by simp [kindTable]) (by decide))
    apply reads_ifEat_declined (hother ("element", Terminal.kindElement) (by simp [kindTable]) (by decide))
    apply reads_ifEat_declined (hother ("attribute", Terminal.kindAttribute) (by simp [kindTable]) (by decide))
    apply reads_ifEat_declined (hother ("schema-element", Terminal.kindSchemaElement) (by simp [kindTable]) (by decide))
    apply reads_ifEat htake
    refine reads_kind_argument hnext (reads_bind hargs fun name hname => ?_)
    rw [hname]
    exact reads_pure rfl
  | processingInstruction target =>
    have hmem : ("processing-instruction", Terminal.kindPi) ∈ kindTable := by simp [kindTable]
    obtain ⟨inside, hinside, htake, hnext, hother⟩ := takes_kind hstate hmem h
    obtain ⟨behind, hbehind, htarget⟩ := reads_target saved hinside
    obtain ⟨mid, hmid, hclose⟩ := reads_close f saved hbehind
    refine ⟨mid, hmid, ?_⟩
    apply reads_ifEat_declined (hother ("document-node", Terminal.kindDocument) (by simp [kindTable]) (by decide))
    apply reads_ifEat_declined (hother ("element", Terminal.kindElement) (by simp [kindTable]) (by decide))
    apply reads_ifEat_declined (hother ("attribute", Terminal.kindAttribute) (by simp [kindTable]) (by decide))
    apply reads_ifEat_declined
      (hother ("schema-element", Terminal.kindSchemaElement) (by simp [kindTable]) (by decide))
    apply reads_ifEat_declined
      (hother ("schema-attribute", Terminal.kindSchemaAttribute) (by simp [kindTable]) (by decide))
    apply reads_ifEat htake
    refine reads_kind_argument hnext (reads_bind htarget fun t ht => ?_)
    refine reads_bind hclose fun _ _ => ?_
    rw [ht]
    exact reads_pure rfl
  | comment =>
    have hmem : ("comment", Terminal.kindComment) ∈ kindTable := by simp [kindTable]
    obtain ⟨inside, hinside, htake, hnext, hother⟩ := takes_kind hstate hmem h
    have hheads : ∀ other ∈ kindTable.take 6, other.1 ≠ "comment" := by decide
    refine reads_simpleKind [] rfl (fun o ho => hother o (List.mem_of_mem_take ho) (hheads o ho)) ?_
      htake hnext hinside
    exact fun _ ho => absurd ho List.not_mem_nil
  | text =>
    have hmem : ("text", Terminal.kindText) ∈ kindTable := by simp [kindTable]
    obtain ⟨inside, hinside, htake, hnext, hother⟩ := takes_kind hstate hmem h
    have hheads : ∀ other ∈ kindTable.take 6, other.1 ≠ "text" := by decide
    refine reads_simpleKind [_] rfl (fun o ho => hother o (List.mem_of_mem_take ho) (hheads o ho)) ?_
      htake hnext hinside
    intro o ho
    simp only [List.mem_cons, List.not_mem_nil, or_false] at ho
    subst ho
    exact hother ("comment", Terminal.kindComment) (by simp [kindTable]) (by decide)
  | namespaceNode =>
    have hmem : ("namespace-node", Terminal.kindNamespaceNode) ∈ kindTable := by simp [kindTable]
    obtain ⟨inside, hinside, htake, hnext, hother⟩ := takes_kind hstate hmem h
    have hheads : ∀ other ∈ kindTable.take 6, other.1 ≠ "namespace-node" := by decide
    refine reads_simpleKind [_, _] rfl (fun o ho => hother o (List.mem_of_mem_take ho) (hheads o ho)) ?_
      htake hnext hinside
    intro o ho
    simp only [List.mem_cons, List.not_mem_nil, or_false] at ho
    rcases ho with rfl | rfl
    · exact hother ("comment", Terminal.kindComment) (by simp [kindTable]) (by decide)
    · exact hother ("text", Terminal.kindText) (by simp [kindTable]) (by decide)
  | anyKind =>
    have hmem : ("node", Terminal.kindNode) ∈ kindTable := by simp [kindTable]
    obtain ⟨inside, hinside, htake, hnext, hother⟩ := takes_kind hstate hmem h
    have hheads : ∀ other ∈ kindTable.take 6, other.1 ≠ "node" := by decide
    refine reads_simpleKind [_, _, _] rfl (fun o ho => hother o (List.mem_of_mem_take ho) (hheads o ho)) ?_
      htake hnext hinside
    intro o ho
    simp only [List.mem_cons, List.not_mem_nil, or_false] at ho
    rcases ho with rfl | rfl | rfl
    · exact hother ("comment", Terminal.kindComment) (by simp [kindTable]) (by decide)
    · exact hother ("text", Terminal.kindText) (by simp [kindTable]) (by decide)
    · exact hother ("namespace-node", Terminal.kindNamespaceNode) (by simp [kindTable]) (by decide)

end Grammar

end XQuerySyntax
