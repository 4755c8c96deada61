import XQuerySyntax.Grammar.Flwor
import XQuerySyntax.Grammar.Function
import XQuerySyntax.Grammar.SequenceType
import XQuerySyntax.Grammar.Update
import XQuerySyntax.Proofs.Order.Forward
import XQuerySyntax.Proofs.Tree.Clause

/-! Names and types are read forward, and sequences, clauses, updates, statements and functions in order. Looking
a name up leaves the matcher as it is; a test that is found begins at the next character that is no space, so the
matcher comes past that place. -/

namespace XQuerySyntax.Order

open XQuerySyntax.Parser XQuerySyntax.Grammar

variable {n b : Nat}

/-! ### Names -/

theorem still_resolveQualifier (qualifier : String) (offset : Nat) :
    Still (resolveQualifier qualifier offset) := by
  refine (still_consult _).seq fun uri => ?_
  cases uri with
  | none => exact (still_record _ _ _).seq fun _ => still_pure _
  | some uri => exact still_pure _

theorem still_resolveName (name : LexicalName) (default : Option String) (offset : Nat) :
    Still (resolveName name default offset) := by
  unfold resolveName
  split
  · exact (still_resolveQualifier _ offset).seq fun _ => still_pure _
  · exact still_pure _

theorem passes_elementName (name : LexicalName) (offset : Nat) : Passes (elementName name offset) :=
  (passes_consult _).seq fun _ => (still_resolveName name _ offset).passes

theorem passes_functionName (name : LexicalName) (offset : Nat) : Passes (functionName name offset) :=
  (passes_consult _).seq fun _ => (still_resolveName name _ offset).passes

theorem passes_plainName (name : LexicalName) (offset : Nat) : Passes (plainName name offset) :=
  (still_resolveName name none offset).passes

/-- A variable is the last token behind itself. -/
theorem leads_variableName : Leads (Matcher.Behind n b) variableName fun _ => Matcher.Took n b := by
  refine leads_expect_bind (by rfl) ((still_observe _).bind fun offset => ?_)
  exact (still_observe _).bind fun name => still_resolveName name none offset _

theorem passes_variableName : Passes variableName := fun _ _ => leads_variableName.weaken fun _ _ hm => hm.past

theorem passes_checkBinding (qualifier uri : String) (offset : Nat) :
    Passes (checkBinding qualifier uri offset) :=
  passes_ite (passes_record _ _ _) (passes_ite (passes_record _ _ _) (passes_pure _))

theorem passes_checkDefaultNamespace (uri : String) (offset : Nat) :
    Passes (checkDefaultNamespace uri offset) := passes_ite (passes_record _ _ _) (passes_pure _)

theorem begins_nameTest (default : Option String) : Begins (nameTest default) fun _ _ => True := by
  refine fun n b => leads_ifEatPast (by rfl) ?_ (leads_ifEatPast (by rfl) ?_
    (leads_ifEatPast (by rfl) ?_ (leads_ifEatPast (by rfl) ?_ finds_none)))
  · exact (passes_observe _).bind fun _ => finds_some fun _ hm => ⟨trivial, hm⟩
  · refine (passes_observe _).bind fun offset => (passes_observe _).bind fun qualifier => ?_
    exact (still_resolveQualifier qualifier offset).bind fun _ => finds_some fun _ hm => ⟨trivial, hm⟩
  · exact finds_some fun _ hm => ⟨trivial, hm⟩
  · refine (passes_observe _).bind fun offset => (passes_observe _).bind fun name => ?_
    exact (still_resolveName name default offset).bind fun _ => finds_some fun _ hm => ⟨trivial, hm⟩

/-! ### Kind tests -/

theorem passes_elementTestName (isElement : Bool) : Passes (elementTestName isElement) := by
  refine passes_ifEat (passes_pure _) (passes_ifEat ?_ (passes_unexpected _))
  refine (passes_observe _).seq fun offset => (passes_observe _).seq fun name => passes_ite ?_ ?_
  · exact (passes_elementName name offset).seq fun _ => passes_pure _
  · exact (passes_plainName name offset).seq fun _ => passes_pure _

theorem passes_elementTestArgs (isElement : Bool) : Passes (elementTestArgs isElement) := by
  have htype : Passes (do
      expect Terminal.kindName
      let offset ← start
      let typeName ← elementName (← capturedQualifiedName 0) offset
      let nillable ← if isElement then eat Terminal.kindNillable else pure false
      return ContentType.mk typeName nillable) := by
    refine (passes_expect _).seq fun _ => (passes_observe _).seq fun offset => ?_
    refine (passes_observe _).seq fun name => (passes_elementName name offset).seq fun _ => ?_
    refine passes_ite ?_ ?_
    · exact (passes_eat _).seq fun _ => passes_pure _
    · exact (passes_pure false).seq fun _ => passes_pure _
  refine passes_ifEat (passes_pure _) ((passes_elementTestName isElement).seq fun name => ?_)
  exact (passes_whenEats htype).seq fun _ => (passes_expect _).seq fun _ => passes_pure _

theorem passes_schemaTestName (isElement : Bool) : Passes (schemaTestName isElement) := by
  refine (passes_expect _).seq fun _ => (passes_observe _).seq fun offset => ?_
  refine (passes_observe _).seq fun name => passes_ite ?_ ?_
  · exact (passes_elementName name offset).seq fun _ => (passes_expect _).seq fun _ => passes_pure _
  · exact (passes_plainName name offset).seq fun _ => (passes_expect _).seq fun _ => passes_pure _

theorem passes_processingInstructionTarget : Passes processingInstructionTarget :=
  passes_ifEat ((passes_observe _).seq fun _ => passes_pure _)
    (passes_ifEat ((passes_observe _).seq fun _ => passes_pure _) (passes_pure _))

theorem passes_documentTestRoot : Passes documentTestRoot := by
  refine passes_ifEat ?_ (passes_ifEat ?_ (passes_pure _))
  · exact (passes_elementTestArgs true).seq fun _ => passes_pure _
  · exact (passes_schemaTestName true).seq fun _ => passes_pure _

theorem begins_kindTest : Begins kindTest fun _ _ => True := by
  refine fun n b => leads_ifEatPast (by rfl) ?_ (leads_ifEatPast (by rfl) ?_
    (leads_ifEatPast (by rfl) ?_ (leads_ifEatPast (by rfl) ?_
    (leads_ifEatPast (by rfl) ?_ (leads_ifEatPast (by rfl) ?_ ?_)))))
  · refine passes_documentTestRoot.bind fun _ => (passes_expect _).bind fun _ => ?_
    exact finds_some fun _ hm => ⟨trivial, hm⟩
  · exact (passes_elementTestArgs true).bind fun _ => finds_some fun _ hm => ⟨trivial, hm⟩
  · exact (passes_elementTestArgs false).bind fun _ => finds_some fun _ hm => ⟨trivial, hm⟩
  · exact (passes_schemaTestName true).bind fun _ => finds_some fun _ hm => ⟨trivial, hm⟩
  · exact (passes_schemaTestName false).bind fun _ => finds_some fun _ hm => ⟨trivial, hm⟩
  · refine passes_processingInstructionTarget.bind fun _ => (passes_expect _).bind fun _ => ?_
    exact finds_some fun _ hm => ⟨trivial, hm⟩
  · refine Leads.bind (leads_eatFirst (by decide)) ?_
    rintro (_ | test)
    · exact finds_none
    · exact Leads.of_took ((passes_expect _).bind fun _ => finds_some fun _ hm => ⟨trivial, hm⟩)

/-! ### Sequence types -/

theorem passes_occurrence : Passes occurrence := (passes_eatFirst _).seq fun _ => passes_pure _

theorem passes_sequenceTypeOf {itemType : Parser ItemType} (h : Passes itemType) (resume : LexicalState) :
    Passes (sequenceTypeOf itemType resume) := by
  refine (passes_goto _).seq fun _ => passes_ifEat ?_ ((passes_nested h).seq fun _ => ?_)
  · exact (passes_goto _).seq fun _ => passes_pure _
  · refine (passes_goto _).seq fun _ => passes_occurrence.seq fun _ => ?_
    exact (passes_goto _).seq fun _ => passes_pure _

theorem passes_functionTest {itemType : Parser ItemType} (h : Passes itemType) :
    Passes (functionTest itemType) := by
  have hresult (params : List SequenceType) : Passes (do
      expect Terminal.kindAs
      return ItemType.functionTest params (← sequenceTypeOf itemType .kindTest)) :=
    (passes_expect _).seq fun _ => (passes_sequenceTypeOf h _).seq fun _ => passes_pure _
  refine passes_ifEat (hresult []) ((passes_separatedBy (passes_sequenceTypeOf h _)).seq fun params => ?_)
  exact (passes_expect _).seq fun _ => hresult params

theorem passes_itemTypeWithin (steps : Nat) : Passes (itemTypeWithin steps) := by
  induction steps with
  | zero => exact fun _ _ => leads_exhausted
  | succ steps ih =>
    refine passes_ifEat (passes_pure _) (passes_ifEat (passes_pure _) (passes_ifEat ?_ (passes_ifEat ?_
      (begins_kindTest.passes.seq ?_))))
    · exact passes_functionTest ih
    · exact ih.seq fun _ => (passes_expect _).seq fun _ => passes_pure _
    · rintro (_ | test)
      · refine passes_ifEat ((passes_observe _).seq fun offset => ?_) (passes_unexpected _)
        refine (passes_observe _).seq fun name => ?_
        exact (passes_elementName name offset).seq fun _ => passes_pure _
      · exact passes_pure _

theorem passes_sequenceType (resume : LexicalState) : Passes (sequenceType resume) := by
  have hitem : Passes itemType := still_get.passes.seq fun _ => passes_itemTypeWithin _
  exact passes_sequenceTypeOf hitem resume

theorem passes_singleType : Passes singleType := by
  refine (passes_goto _).seq fun _ => (passes_expect _).seq fun _ => (passes_observe _).seq fun offset => ?_
  refine (passes_observe _).seq fun name => (passes_elementName name offset).seq fun _ => ?_
  refine (passes_goto _).seq fun _ => (passes_eat _).seq fun _ => ?_
  exact (passes_goto _).seq fun _ => passes_pure _

theorem passes_typedVariable : Passes typedVariable :=
  passes_variableName.seq fun _ => (passes_whenEats (passes_sequenceType _)).seq fun _ => passes_pure _

open List (forall_mem_nil)

variable {single : Parser Expr} {offset : Nat}

/-! ### Expressions with commas and in braces -/

/-- A sequence stands where its first expression stands. -/
theorem builds_expr (h : Builds single) : Builds (expr single) := by
  refine fun n b => h.bind fun first hfirst => (passes_peek _).bind fun _ => ?_
  refine leads_ite (fun _ => leads_pure fun _ hm => ⟨hfirst, hm⟩) fun _ => ?_
  exact (keeps_many (keeps_whenEats h.keeps)).bind fun rest hrest => stands_leading ⟨⟨rfl, rfl⟩, rfl, rfl⟩ hfirst hrest

theorem builds_exprUpToBrace? (h : Builds single) : BuildsOptional (exprUpToBrace? single) := by
  refine fun n b => (passes_eat _).bind fun _ => leads_ite (fun _ => finds_none) fun _ => ?_
  exact (builds_expr h).bind fun e he => (passes_expect _).bind fun _ => finds_some fun _ hm => ⟨he, hm⟩

theorem stands_emptySequence (hb : b ≤ offset) :
    Leads (Matcher.Behind n (offset + 1)) (node (.sequence []) offset) (Expr.Stands n b) :=
  stands_node hb ⟨List.forall_mem_nil _, forall_mem_nil _, rfl, rfl⟩

/-- Without an expression the empty sequence stands where the caller says. -/
theorem stands_exprUpToBrace (h : Builds single) (hb : b ≤ offset) :
    Leads (Matcher.Behind n (offset + 1)) (exprUpToBrace single offset) (Expr.Stands n b) := by
  refine Leads.bind (builds_exprUpToBrace? h n (offset + 1)) ?_
  rintro (_ | e)
  · exact stands_emptySequence hb
  · exact leads_pure fun _ hm => hm.mono (Nat.le_succ_of_le hb)

theorem builds_enclosedExpr (h : Builds single) : Builds (enclosedExpr single) := fun _ _ =>
  leads_expect_bind (by rfl) (leads_start_bind fun _ ho => stands_exprUpToBrace h ho)

theorem builds_bracedExpr (h : Builds single) : Builds (bracedExpr single) := by
  refine fun n b => (passes_expect _).bind fun _ => (builds_expr h).bind fun e he => ?_
  exact (passes_expect _).bind fun _ => leads_pure fun _ hm => ⟨he, hm⟩

theorem builds_optionalExpr (h : Builds single) : BuildsOptional (optionalExpr single) :=
  fun n b => (passes_expect _).bind fun _ => builds_exprUpToBrace? h n b

/-- The bound may stay where it was, whether an expression is there or not. -/
theorem BuildsOptional.keeps {p : Parser (Option Expr)} (h : BuildsOptional p) :
    Keeps n b p fun found => InOrderAll b found.toList := by
  refine (h n b).weaken fun found m hm => ?_
  cases found with
  | none => exact ⟨List.forall_mem_nil _, hm⟩
  | some e =>
    exact ⟨List.forall_mem_singleton.2 hm.order, hm.behind.mono (Nat.le_succ_of_le hm.order.offset)⟩

theorem builds_parenthesizedExpr (h : Builds single) : Builds (parenthesizedExpr single) := by
  refine fun n b => (passes_expect _).bind fun _ => (builds_expr h).bind fun e he => ?_
  exact (passes_expect _).bind fun _ => leads_pure fun _ hm => ⟨he, hm⟩

/-- A pragma stands where its opener stands. -/
theorem leads_pragma : Leads (Matcher.Took n b) (do
    let offset ← start
    let name ← plainName (← capturedQualifiedName 0) offset
    let contents ← lexeme (scanDelimited "#)" "pragma")
    return (Pragma.mk name (contents.getD ""), offset)) fun found m => b ≤ found.2 ∧ m.Behind n (found.2 + 1) := by
  refine leads_start_bind fun offset ho => (passes_observe _).bind fun name => ?_
  refine (passes_plainName name offset).bind fun _ => (passes_lexeme (scanDelimited_within _ _)).bind fun _ => ?_
  exact leads_pure fun _ hm => ⟨ho, hm⟩

theorem passes_pragma? : Passes pragma? := by
  refine passes_whenEats ((passes_observe _).seq fun offset => (passes_observe _).seq fun name => ?_)
  refine (passes_plainName name offset).seq fun _ => ?_
  exact (passes_lexeme (scanDelimited_within _ _)).seq fun _ => passes_pure _

theorem passes_pragmas : Passes pragmas := by
  refine (passes_many passes_pragma?).seq ?_
  rintro (_ | ⟨⟨first, offset⟩, rest⟩)
  · exact (passes_observe _).seq fun _ => passes_pure _
  · exact passes_pure _

/-- Behind the opener of a pragma there is at least one, and the place of the first is kept. -/
theorem leads_pragmas : Leads (Matcher.Faces Terminal.pragmaOpen n b) pragmas fun found m =>
    b ≤ found.2 ∧ m.Behind n (found.2 + 1) := by
  have hmany : Leads (Matcher.Faces Terminal.pragmaOpen n b) (many pragma?) fun found m =>
      ∃ first ∈ found.head?, b ≤ first.2 ∧ m.Behind n (first.2 + 1) := by
    refine still_get.bind fun s => Leads.bind (leads_whenEats_faces (by rfl) leads_pragma) ?_
    rintro _ s' ⟨first, rfl, hfirst, hs'⟩
    have hrest : Leads (Matcher.Behind n (first.2 + 1)) (do
        return first :: (← manyWithin pragma? s.scan.cursor.size)) fun found m =>
          ∃ first ∈ found.head?, b ≤ first.2 ∧ m.Behind n (first.2 + 1) :=
      (passes_manyWithin passes_pragma? _).bind fun rest => leads_pure fun _ hm => ⟨first, rfl, hfirst, hm⟩
    exact hrest s' hs'
  refine Leads.bind hmany ?_
  rintro (_ | ⟨⟨first, offset⟩, rest⟩) s ⟨_, hfirst, hs⟩
  · cases hfirst
  · cases hfirst
    exact hs

theorem builds_extensionExpr (h : Builds single) :
    Leads (Matcher.Faces Terminal.pragmaOpen n b) (extensionExpr single) (Expr.Stands n b) := by
  refine Leads.bind leads_pragmas fun ⟨ps, offset⟩ => leads_of_and fun ho => ?_
  exact (builds_optionalExpr h).keeps.bind fun e he => stands_node ho ⟨he, forall_mem_nil _, rfl, rfl⟩

/-! ### Clauses -/

theorem passes_positionalVariable (name : QName) : Passes (positionalVariable name) := by
  refine (passes_observe _).seq fun _ => passes_variableName.seq fun _ => passes_ite ?_ (passes_pure _)
  exact (passes_record _ _ _).seq fun _ => passes_pure _

theorem keeps_forBinding (h : Builds single) :
    Keeps n b (forBinding single) fun binding => binding.source.InOrder b := by
  refine (passes_observe _).bind fun _ => passes_typedVariable.bind fun ⟨name, _⟩ => ?_
  refine (passes_eat _).bind fun _ => (passes_whenEats (passes_positionalVariable name)).bind fun _ => ?_
  refine (passes_whenEats passes_variableName).bind fun _ => (passes_expect _).bind fun _ => ?_
  exact h.keeps.bind fun _ he => keeps_pure he

theorem keeps_letBinding (h : Builds single) (score : Bool) :
    Keeps n b (letBinding single score) fun binding => binding.value.InOrder b := by
  refine (passes_observe _).bind fun offset => ?_
  have hend (binding : QName × Option SequenceType) : Keeps n b (do
      expect Terminal.assign
      let value ← single
      return LetBinding.mk binding.1 binding.2 score value offset) fun found => found.value.InOrder b :=
    (passes_expect _).bind fun _ => h.keeps.bind fun _ he => keeps_pure he
  refine leads_ite (fun _ => ?_) fun _ => passes_typedVariable.bind hend
  exact (passes_map _ passes_variableName).bind hend

theorem keeps_letBindings (h : Builds single) (score : Bool) :
    Keeps n b (letBindings single score) fun c => InOrderAll b c.children := by
  refine (keeps_letBinding h score).bind fun first hfirst => ?_
  refine (keeps_many (keeps_whenEats (keeps_letBinding h false))).bind fun rest hrest => keeps_pure ?_
  have hall : ∀ binding ∈ first :: rest, binding.value.InOrder b := List.forall_mem_cons.2 ⟨hfirst, hrest⟩
  exact List.forall_mem_flatMap.2 fun binding hb => List.forall_mem_singleton.2 (hall binding hb)

theorem keeps_windowCondition (h : Builds single) (only : Bool) :
    Keeps n b (windowCondition single only) fun w => InOrderAll b w.children := by
  have hvariable (r : Rule) : Passes (whenEats r variableName) := passes_whenEats passes_variableName
  have hend (current : Option QName) : Keeps n b (do
      let positional ← whenEats Terminal.windowAt variableName
      let previous ← whenEats Terminal.windowPrevious variableName
      let next ← whenEats Terminal.windowNext variableName
      expect Terminal.whenCondition
      let condition ← single
      return WindowCondition.mk only ⟨current, positional, previous, next⟩ condition) fun w =>
        InOrderAll b w.children := by
    refine (hvariable _).bind fun _ => (hvariable _).bind fun _ => (hvariable _).bind fun _ => ?_
    refine (passes_expect _).bind fun _ => h.keeps.bind fun condition hcondition => keeps_pure ?_
    exact List.forall_mem_singleton.2 hcondition
  refine leads_ifPeek ?_ ?_
  · exact (passes_map _ passes_variableName).bind fun current => hend current
  · exact (passes_pure _).bind fun current => hend current

theorem keeps_windowEnd (h : Builds single) (kind : WindowKind) :
    Keeps n b (windowEnd single kind) fun last => ∀ w ∈ last, InOrderAll b w.children := by
  have hsome (only : Bool) := (keeps_windowCondition (n := n) (b := b) h only).some
  refine (passes_eat _).bind fun _ => leads_ite (fun _ => hsome true) fun _ => ?_
  refine (passes_eat _).bind fun _ => leads_ite (fun _ => hsome false) fun _ => ?_
  exact leads_ite (fun _ => leads_unexpected_bind _) fun _ => keeps_none

theorem keeps_windowClause (h : Builds single) (kind : WindowKind) :
    Keeps n b (windowClause single kind) fun c => InOrderAll b c.children := by
  refine (passes_observe _).bind fun offset => passes_typedVariable.bind fun ⟨name, _⟩ => ?_
  refine (passes_expect _).bind fun _ => h.keeps.bind fun source hsource => ?_
  refine (passes_expect _).bind fun _ => (keeps_windowCondition h false).bind fun first hfirst => ?_
  refine (keeps_windowEnd h kind).bind fun last hlast => ?_
  refine (still_forIn (fun n => still_record _ _ _) _).bind fun _ => keeps_pure ?_
  refine List.forall_mem_cons.2 ⟨hsource, List.forall_mem_append.2 ⟨hfirst, ?_⟩⟩
  exact List.forall_mem_flatMap.2 fun w hw => hlast w (Option.mem_toList.1 hw)

/-- The expressions of a clause stand behind the word that it begins with. -/
theorem begins_initialClause (h : Builds single) :
    Begins (initialClause single) fun b c => InOrderAll b c.children := by
  refine fun n b => leads_ifEatPast (by rfl) (Leads.some (keeps_windowClause h _))
    (leads_ifEatPast (by rfl) (Leads.some (keeps_windowClause h _))
    (leads_ifEatPast (by rfl) ?_
    (leads_ifEatPast (by rfl) (Leads.some (keeps_letBindings h _))
    (leads_ifEatPast (by rfl) (Leads.some (keeps_letBindings h _)) finds_none))))
  refine (keeps_separatedBy (keeps_forBinding h)).bind fun bindings hb => finds_some fun _ hm => ⟨?_, hm⟩
  exact List.forall_mem_flatMap.2 fun binding hbinding => List.forall_mem_singleton.2 (hb _ hbinding)

theorem begins_clause (h : Builds single) : Begins (clause single) fun b c => InOrderAll b c.children := by
  refine fun n b => Leads.bind (begins_initialClause h n b) ?_
  rintro (_ | c)
  · refine leads_ifEatPast (by rfl) ?_ (leads_ifEatPast (by rfl) ?_ finds_none)
    · refine h.keeps.bind fun condition hcondition => finds_some fun _ hm => ⟨?_, hm⟩
      exact List.forall_mem_singleton.2 hcondition
    · exact passes_variableName.bind fun _ => finds_some fun _ hm => ⟨List.forall_mem_nil _, hm⟩
  · exact leads_pure fun _ hm => hm

theorem passes_collation : Passes collation := passes_whenEats (passes_observe _)

theorem keeps_groupingSpec (h : Builds single) (bound : List ExpandedName) :
    Keeps n b (groupingSpec single bound) fun g => InOrderAll b g.children := by
  refine (passes_observe _).bind fun _ => passes_variableName.bind fun name => ?_
  refine (keeps_whenEats h.keeps).bind fun value hvalue => ?_
  have hend : Keeps n b (do return GroupingSpec.mk name value (← collation)) fun g =>
      InOrderAll b g.children :=
    passes_collation.bind fun _ => keeps_pure fun e he => hvalue e (Option.mem_toList.1 he)
  exact leads_ite (fun _ => (passes_record _ _ _).bind fun _ => hend) fun _ => hend

theorem keeps_orderSpec (h : Builds single) : Keeps n b (orderSpec single) fun s => s.key.InOrder b := by
  refine h.keeps.bind fun key hkey => (passes_eatFirst _).bind fun _ => (passes_eatFirst _).bind fun _ => ?_
  exact passes_collation.bind fun _ => keeps_pure hkey

theorem keeps_ordering (h : Builds single) :
    Keeps n b (ordering single) fun found => ∀ s ∈ found.2, s.key.InOrder b := by
  refine (passes_eatFirst _).bind ?_
  rintro (_ | stable)
  · exact keeps_pure (List.forall_mem_nil _)
  · exact (keeps_separatedBy (keeps_orderSpec h)).bind fun keys hkeys => keeps_pure hkeys

theorem keeps_postGroupClause (h : Builds single) :
    Keeps n b (postGroupClause single) fun found => ∀ c ∈ found, InOrderAll b c.children := by
  refine ((begins_clause h).keeps fun _ hc => hc.mono (Nat.le_succ b)).bind ?_
  rintro (_ | c) hc
  · refine (passes_eat _).bind fun _ => leads_ite (fun _ => ?_) fun _ => keeps_none
    exact (passes_observe _).bind fun _ => leads_fatal_bind _ _ _
  · exact keeps_someOf (hc c rfl)

theorem builds_flwor (h : Builds single) : BuildsOptional (flwor single) := by
  refine fun n b => leads_nextOffset_bind fun offset ho => ?_
  refine Leads.bind (begins_initialClause h n offset) ?_
  rintro (_ | first)
  · exact leads_pure fun _ hm => hm.mono ho
  refine leads_of_and fun hfirst => ?_
  refine (keeps_many ((begins_clause h).keeps fun _ hc => hc.mono (Nat.le_succ _))).bind fun more hmore => ?_
  cases hsplit : Clause.splitCondition (first :: more) with | mk clauses condition
  have hall : InOrderAll (offset + 1) (clauses.flatMap Clause.children ++ condition.toList) := by
    have heq : (first :: more).flatMap Clause.children =
        clauses.flatMap Clause.children ++ condition.toList :=
      (Clause.flatMap_splitCondition _ hsplit).trans (by cases condition <;> rfl)
    rw [← heq]
    exact List.forall_mem_append.2 ⟨hfirst, List.forall_mem_flatMap.2 hmore⟩
  have hend (groupBy : List (GroupingSpec Expr)) (postGroup : List (Clause Expr))
      (hgroup : ∀ g ∈ groupBy, InOrderAll (offset + 1) g.children)
      (hpost : ∀ c ∈ postGroup, InOrderAll (offset + 1) c.children) :
      Leads (Matcher.Behind n (offset + 1)) (do
        let order ← ordering single
        expect Terminal.returnClause
        let result ← single
        return some (← node (.flwor
          ⟨clauses, condition, groupBy, postGroup, order.1, order.2, result⟩) offset))
        (Matcher.Finds n b (Expr.Stands n b)) := by
    refine (keeps_ordering h).bind fun order horder => (passes_expect _).bind fun _ => ?_
    refine h.keeps.bind fun result hresult => Leads.some (stands_node ho ⟨?_, forall_mem_nil _, rfl, rfl⟩)
    refine List.forall_mem_append.2 ⟨List.forall_mem_append.2 ⟨List.forall_mem_append.2
      ⟨List.forall_mem_append.2 ⟨hall, List.forall_mem_flatMap.2 hgroup⟩, List.forall_mem_flatMap.2 hpost⟩,
      List.forall_mem_flatMap.2 fun s hs => List.forall_mem_singleton.2 (horder s hs)⟩,
      List.forall_mem_singleton.2 hresult⟩
  refine (passes_eat _).bind ?_
  rintro (_ | _)
  · exact hend [] [] (List.forall_mem_nil _) (List.forall_mem_nil _)
  · refine (keeps_separatedBy (keeps_groupingSpec h _)).bind fun groupBy hgroup => ?_
    exact (keeps_many (keeps_postGroupClause h)).bind fun postGroup hpost =>
      hend groupBy postGroup hgroup hpost

/-! ### Updates -/

theorem passes_insertPosition : Passes insertPosition := by
  refine (passes_eatFirst _).seq ?_
  rintro (_ | position)
  · exact passes_unexpected _
  · exact passes_pure _

theorem keeps_replace (h : Builds single) (valueOf : Bool) :
    Keeps n b (replace single valueOf) (ExprKind.InOrder b) := by
  refine h.keeps.bind fun target htarget => (passes_expect _).bind fun _ => ?_
  refine h.keeps.bind fun new hnew => keeps_pure ⟨?_, forall_mem_nil _, rfl, rfl⟩
  exact List.forall_mem_cons.2 ⟨htarget, List.forall_mem_singleton.2 hnew⟩

theorem keeps_copyBinding (h : Builds single) :
    Keeps n b (copyBinding single) fun binding => InOrderAll b binding.children := by
  refine passes_variableName.bind fun _ => (passes_expect _).bind fun _ => ?_
  exact h.keeps.bind fun value hvalue => keeps_pure (List.forall_mem_singleton.2 hvalue)

theorem keeps_transform (h : Builds single) : Keeps n b (transform single) (ExprKind.InOrder b) := by
  refine (keeps_separatedBy (keeps_copyBinding h)).bind fun bindings hbindings => ?_
  refine (passes_expect _).bind fun _ => h.keeps.bind fun modify hmodify => ?_
  refine (passes_expect _).bind fun _ => h.keeps.bind fun result hresult => keeps_pure ⟨?_, forall_mem_nil _, rfl, rfl⟩
  refine List.forall_mem_append.2 ⟨List.forall_mem_flatMap.2 hbindings, ?_⟩
  exact List.forall_mem_cons.2 ⟨hmodify, List.forall_mem_singleton.2 hresult⟩

theorem begins_updateKind (h : Builds single) : Begins (updateKind single) ExprKind.InOrder := by
  refine fun n b => leads_ifEatFirst (by decide) ?_ (leads_ifEatFirst (by decide) ?_
    (leads_ifEatPast (by rfl) (Leads.some (keeps_replace h true))
    (leads_ifEatPast (by rfl) (Leads.some (keeps_replace h false))
    (leads_ifEatPast (by rfl) ?_
    (leads_whenEats (by rfl) (keeps_transform h).of_took)))))
  · refine h.keeps.bind fun source hsource => passes_insertPosition.bind fun position => ?_
    refine h.keeps.bind fun target htarget => finds_some fun _ hm => ⟨⟨?_, forall_mem_nil _, rfl, rfl⟩, hm⟩
    exact List.forall_mem_cons.2 ⟨hsource, List.forall_mem_singleton.2 htarget⟩
  · refine h.keeps.bind fun target htarget => finds_some fun _ hm => ⟨⟨?_, forall_mem_nil _, rfl, rfl⟩, hm⟩
    exact List.forall_mem_singleton.2 htarget
  · refine h.keeps.bind fun target htarget => (passes_expect _).bind fun _ => ?_
    refine h.keeps.bind fun name hname => finds_some fun _ hm => ⟨⟨?_, forall_mem_nil _, rfl, rfl⟩, hm⟩
    exact List.forall_mem_cons.2 ⟨htarget, List.forall_mem_singleton.2 hname⟩

/-- A node made of a form stands where the form begins. -/
theorem stands_form {p : Parser (Option (ExprKind Expr))} (h : Begins p ExprKind.InOrder) :
    BuildsOptional (do
      let offset ← nextOffset
      match ← p with
      | none => return none
      | some kind => return some (← node kind offset)) := by
  refine fun n b => leads_nextOffset_bind fun offset ho => Leads.bind (h n offset) ?_
  rintro (_ | kind)
  · exact leads_pure fun _ hm => hm.mono ho
  · exact leads_of_and fun hkind => Leads.some (stands_node ho hkind)

theorem builds_updateExpr (h : Builds single) : BuildsOptional (updateExpr single) :=
  stands_form (begins_updateKind h)

/-! ### Statements -/

theorem keeps_blockVariable (h : Builds single) :
    Keeps n b (blockVariable single) fun d => InOrderAll b d.children := by
  refine passes_typedVariable.bind fun ⟨_, _⟩ => (keeps_whenEats h.keeps).bind fun value hvalue => ?_
  exact keeps_pure fun e he => hvalue e (Option.mem_toList.1 he)

theorem keeps_blockDeclaration (h : Builds single) :
    Keeps n b (blockDeclaration single) fun found =>
      ∀ declared ∈ found, ∀ d ∈ declared, InOrderAll b d.children := by
  refine keeps_whenEats ((keeps_separatedBy (keeps_blockVariable h)).bind fun declared hdeclared => ?_)
  exact (passes_expect _).bind fun _ => keeps_pure hdeclared

theorem keeps_blockStatement (h : Builds single) {body : List Expr} (hbody : InOrderAll b body) :
    Keeps n b (blockStatement single body) (Sum.elim (InOrderAll b) (InOrderAll b)) := by
  refine (passes_eat _).bind fun _ => leads_ite (fun _ => keeps_pure hbody) fun _ => ?_
  refine (builds_expr h).keeps.bind fun e he => (passes_eat _).bind fun _ => ?_
  refine leads_ite (fun _ => keeps_pure (forall_mem_concat hbody he)) fun _ => ?_
  exact (passes_expect _).bind fun _ => keeps_pure (forall_mem_concat hbody he)

theorem stands_blockBody (h : Builds single) (hb : b ≤ offset) :
    Leads (Matcher.Behind n (offset + 1)) (blockBody single offset) (Expr.Stands n b) := by
  refine (keeps_many (keeps_blockDeclaration h)).bind fun declarations hdeclarations => ?_
  refine (keeps_iterate (fun _ => keeps_blockStatement h) (List.forall_mem_nil _)).bind fun body hbody => ?_
  refine stands_node hb ⟨List.forall_mem_append.2 ⟨List.forall_mem_flatMap.2 ?_, hbody⟩, forall_mem_nil _, rfl, rfl⟩
  intro d hd
  obtain ⟨declared, hdeclared, hd⟩ := List.mem_flatten.1 hd
  exact hdeclarations declared hdeclared d hd

theorem begins_statementKind (h : Builds single) : Begins (statementKind single) ExprKind.InOrder := by
  refine fun n b => leads_ifEatPast (by decide) ?_ (leads_ifEatFirst (by decide) ?_
    (leads_ifEatPast (by rfl) ?_ (leads_ifEatPast (by rfl) ?_
    (leads_ifEatPast (by rfl) ?_ (leads_ifEatPast (by rfl) ?_ finds_none)))))
  · refine (builds_parenthesizedExpr h).keeps.bind fun condition hcondition => (passes_goto _).bind fun _ => ?_
    refine h.keeps.bind fun body hbody => finds_some fun _ hm => ⟨⟨?_, forall_mem_nil _, rfl, rfl⟩, hm⟩
    exact List.forall_mem_cons.2 ⟨hcondition, List.forall_mem_singleton.2 hbody⟩
  · refine h.keeps.bind fun e he => finds_some fun _ hm => ⟨⟨?_, forall_mem_nil _, rfl, rfl⟩, hm⟩
    exact List.forall_mem_singleton.2 he
  · exact finds_some fun _ hm => ⟨⟨List.forall_mem_nil _, forall_mem_nil _, rfl, rfl⟩, hm⟩
  · exact finds_some fun _ hm => ⟨⟨List.forall_mem_nil _, forall_mem_nil _, rfl, rfl⟩, hm⟩
  · refine passes_variableName.bind fun name => (passes_expect _).bind fun _ => ?_
    refine h.keeps.bind fun e he => finds_some fun _ hm => ⟨⟨?_, forall_mem_nil _, rfl, rfl⟩, hm⟩
    exact List.forall_mem_singleton.2 he
  · refine (passes_observe _).bind fun offset => (passes_observe _).bind fun name => ?_
    refine (passes_plainName name offset).bind fun _ => h.keeps.bind fun e he => ?_
    exact finds_some fun _ hm => ⟨⟨List.forall_mem_singleton.2 he, forall_mem_nil _, rfl, rfl⟩, hm⟩

theorem builds_scriptingExpr (h : Builds single) : BuildsOptional (scriptingExpr single) := by
  refine fun n b => leads_nextOffset_bind fun offset ho => leads_ifEatPast (by rfl) ?_ ?_
  · exact (passes_expect _).bind fun _ => Leads.some (stands_blockBody h ho)
  · refine Leads.bind (begins_statementKind h n offset) ?_
    rintro (_ | kind)
    · exact leads_pure fun _ hm => hm.mono ho
    · exact leads_of_and fun hkind => Leads.some (stands_node ho hkind)

theorem keeps_queryStatement (h : Builds single) {c : Nat} (hc : c ≤ b) {body : List Expr}
    (hbody : InOrderAll c body) :
    Keeps n b (queryStatement single body) (Sum.elim (InOrderAll c) (InOrderAll c)) := by
  refine passes_atEnd.bind fun _ => leads_ite (fun _ => keeps_pure hbody) fun _ => ?_
  refine (builds_expr h).keeps.bind fun e he => (passes_eat _).bind fun _ => ?_
  refine leads_ite (fun _ => ?_) fun _ => ?_ <;> exact keeps_pure (forall_mem_concat hbody (he.mono hc))

/-- Statements stand where the next character stood in front of them. -/
theorem builds_queryBody (h : Builds single) : Builds (queryBody single) := by
  refine fun n b => leads_nextOffset_bind fun offset ho => (builds_expr h).bind fun first hfirst => ?_
  refine (passes_eat _).bind fun _ => leads_ite (fun _ => ?_) fun _ => ?_
  · exact leads_pure fun _ hm => ⟨hfirst.mono ho, hm⟩
  refine Leads.of_le ?_ (Nat.succ_le_succ hfirst.offset)
  have hstep (body : List Expr) (hbody : InOrderAll offset body) :
      Keeps n (offset + 1) (queryStatement single body) (Sum.elim (InOrderAll offset) (InOrderAll offset)) :=
    keeps_queryStatement h (Nat.le_succ offset) hbody
  refine (keeps_iterate hstep (List.forall_mem_singleton.2 hfirst)).bind fun body hbody => ?_
  exact stands_front ho ⟨hbody, forall_mem_nil _, rfl, rfl⟩

/-! ### Functions -/

theorem passes_annotationLiteral : Passes annotationLiteral :=
  passes_ifEat ((passes_observe _).seq fun _ => passes_pure _)
    (passes_ifEat ((passes_observe _).seq fun _ => passes_pure _) (passes_unexpected _))

theorem passes_annotationLiterals : Passes annotationLiterals := by
  refine passes_ifEat ((passes_separatedBy passes_annotationLiteral).seq fun _ => ?_) (passes_pure _)
  exact (passes_expect _).seq fun _ => passes_pure _

theorem passes_annotation? : Passes annotation? := by
  refine passes_whenEats ((passes_observe _).seq fun offset => (passes_observe _).seq fun name => ?_)
  refine (still_resolveName name _ offset).passes.seq fun _ => ?_
  exact passes_annotationLiterals.seq fun _ => passes_pure _

theorem passes_annotationList : Passes annotationList := by
  refine passes_iterate (fun annotations => passes_annotation?.seq ?_) _
  rintro (_ | ⟨a, offset⟩)
  · exact passes_pure _
  · exact passes_ite ((passes_record _ _ _).seq fun _ => passes_pure _) (passes_pure _)

theorem passes_declaredType : Passes declaredType := passes_whenEats (passes_sequenceType _)

theorem passes_param (params : List Param) : Passes (param params) := by
  refine (passes_expect _).seq fun _ => (passes_observe _).seq fun offset => ?_
  refine (passes_observe _).seq fun name => (passes_plainName name offset).seq fun name => ?_
  have hend : Passes (do return Param.mk name (← declaredType)) :=
    passes_declaredType.seq fun _ => passes_pure _
  exact passes_ite ((passes_record _ _ _).seq fun _ => hend) hend

theorem passes_paramList : Passes paramList := by
  refine passes_ifEat (passes_pure _) ((passes_iterate (fun params => ?_) _).seq fun params => ?_)
  · exact (passes_param params).seq fun p => passes_ifEat (passes_pure _) (passes_pure _)
  · exact (passes_expect _).seq fun _ => passes_pure _

theorem stands_functionBody (h : Builds single) (statements : Bool) (hb : b ≤ offset) :
    Leads (Matcher.Behind n (offset + 1)) (functionBody single statements offset) (Expr.Stands n b) :=
  leads_ite (fun _ => stands_blockBody h hb) fun _ => stands_exprUpToBrace h hb

theorem builds_inlineFunction (h : Builds single) : Builds (inlineFunction single) := by
  refine fun n b => leads_nextOffset_bind fun offset ho => passes_annotationList.bind fun annotations => ?_
  refine leads_expect_bind (by rfl) (Leads.of_took ?_)
  refine (passes_expect _).bind fun _ => passes_paramList.bind fun params => ?_
  refine passes_declaredType.bind fun type => leads_expect_bind (by rfl) ?_
  refine leads_start_bind fun place hplace => ?_
  refine Leads.bind (Leads.keeps (stands_functionBody h false hplace)) fun body => ?_
  exact leads_of_and fun hbody => stands_node ho ⟨List.forall_mem_singleton.2 hbody, forall_mem_nil _, rfl, rfl⟩

end XQuerySyntax.Order
