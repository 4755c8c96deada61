import XQuerySyntax.Proofs.Order.Module
import XQuerySyntax.Proofs.Repetition.Declaration

/-! Whole prologs and the ledger. The declarations of a module begin one behind the other, and behind them
the ledger holds what the declarations in the tree call for: a report for each key that is given again, and
one for each declaration that comes too late. -/

namespace XQuerySyntax

namespace Repetition

open XQuerySyntax.Parser XQuerySyntax.Grammar

variable {α β : Type} {n b : Nat} {begun : List Nat} {known : List DeclarationKey}
  {reports : List (ErrorCode × Nat)} {place : Matcher.Mark} {p : Parser α} {next : α → Parser β}

/-! ### Where the word that opens a declaration was a name -/

/-- The ledger, and the same from the mark. -/
abbrev Marked (n b : Nat) (begun : List Nat) (known : List DeclarationKey) (reports : List (ErrorCode × Nat))
    (place : Matcher.Mark) (s : ParserState) : Prop :=
  LedgerAt n b (fun _ => False) begun known reports (some place) s

/-- Unless something is found, the ledger is as it was, and so it is from the mark. -/
def Turns (p : Parser (Option α)) : Prop :=
  ∀ n b begun known reports place,
    Contract (Marked n b begun known reports place) p
      (fun found s => found = none → Marked n b begun known reports place s) fun _ _ => True

/-- Something is found. -/
def Finds (p : Parser (Option α)) : Prop :=
  Contract (fun _ => True) p (fun found _ => found ≠ none) fun _ _ => True

theorem finds_some (a : α) : Finds (pure (some a)) := fun _ _ => nofun

theorem finds_bind {next : α → Parser (Option β)} (hn : ∀ a, Finds (next a)) : Finds (p >>= next) :=
  (Contract.any _ p).bind hn

/-- Where something is found, anything may be said of the case that nothing is. -/
theorem Finds.otherwise {p : Parser (Option α)} {pre post : ParserState → Prop} (h : Finds p) :
    Contract pre p (fun found s => found = none → post s) fun _ _ => True :=
  Contract.weaken h (fun _ _ => trivial) fun _ _ hs hnone => absurd hnone hs

theorem Finds.turns {p : Parser (Option α)} (h : Finds p) : Turns p := fun _ _ _ _ _ _ => h.otherwise

theorem turns_none : Turns (pure none : Parser (Option α)) := fun _ _ _ _ _ _ _ hs _ => hs

theorem turns_ifEat {r : Rule} {yes no : Parser (Option α)} (hy : Finds yes) (hn : Turns no) :
    Turns (eat r >>= fun matched => if matched then yes else no) := fun _ _ _ _ _ _ =>
  (ledgerAt_eat _ r).bind fun _ => Contract.ite (fun _ => hy.turns _ _ _ _ _ _) fun _ => hn _ _ _ _ _ _

theorem Turns.bind {p : Parser (Option α)} {next : Option α → Parser (Option β)} (h : Turns p)
    (hn : Turns (next none)) (hs : ∀ a, Finds (next (some a))) : Turns (p >>= next) := by
  intro n b begun known reports place
  refine (h n b begun known reports place).bind fun found => ?_
  cases found with
  | none => exact Contract.weaken (hn n b begun known reports place) (fun _ hs => hs rfl) fun _ _ hs => hs
  | some a => exact (hs a).otherwise

theorem turns_annotation? : Turns annotation? :=
  turns_ifEat (finds_bind fun _ => finds_some _) turns_none

/-- Without an annotation the ledger is as it was. -/
theorem marked_annotationList : Contract (Marked n b begun known reports place) annotationList
    (fun as s => as = [] → Marked n b begun known reports place s) fun _ _ => True := by
  -- The list never becomes shorter, so it ends empty only where nothing has been read.
  have hmore (as : List AnnotationDecl) (a : AnnotationDecl) (offset : Nat) :
      Contract (fun _ => True) (do
        if a.isVisibility && as.any (·.isVisibility) then
          record .duplicateAnnotations offset "only one %public or %private annotation is allowed"
        return (.inl (as ++ [a]) : List AnnotationDecl ⊕ List AnnotationDecl))
        (fun next s => Sum.elim id id next = [] → Marked n b begun known reports place s) fun _ _ => True := by
    refine Contract.ite (fun _ => (Contract.any _ _).bind fun _ => ?_) fun _ => ?_
    · exact fun _ _ h => absurd h (List.append_ne_nil_of_right_ne_nil as (List.cons_ne_nil a []))
    · exact fun _ _ h => absurd h (List.append_ne_nil_of_right_ne_nil as (List.cons_ne_nil a []))
  have hloop (steps : Nat) (as : List AnnotationDecl) :
      Contract (fun s => as = [] → Marked n b begun known reports place s) (iterateWithin addAnnotation steps as)
        (fun as s => as = [] → Marked n b begun known reports place s) fun _ _ => True := by
    induction steps generalizing as with
    | zero => exact fun _ _ => trivial
    | succ steps ih =>
      have hstep : Contract (fun s => as = [] → Marked n b begun known reports place s) ( addAnnotation as)
          (fun next s => Sum.elim id id next = [] → Marked n b begun known reports place s) fun _ _ => True := by
        cases as with
        | nil =>
          refine Contract.weaken (Contract.bind (turns_annotation? n b begun known reports place) fun found => ?_)
            (fun _ hs => hs rfl) fun _ _ hs => hs
          rcases found with _ | ⟨a, offset⟩
          · exact fun s hs _ => hs rfl
          · exact fun s _ => hmore [] a offset s trivial
        | cons first as =>
          refine Contract.bind (Contract.any _ _) fun found => ?_
          rcases found with _ | ⟨a, offset⟩
          · exact fun s hs => nofun
          · exact fun s _ => hmore (first :: as) a offset s trivial
      refine hstep.bind fun next => ?_
      cases next with
      | inl as => exact ih as
      | inr as => exact fun s hs => hs
  exact fun s hs => hloop s.steps [] s fun _ => hs

theorem turns_setterDecl (offset : Nat) : Turns (setterDecl offset) := by
  have hfound {p : Parser DeclarationKind} : Finds (do return some (← p)) := finds_bind fun _ => finds_some _
  exact turns_ifEat hfound (turns_ifEat hfound (turns_ifEat hfound (turns_ifEat hfound (turns_ifEat hfound
    (turns_ifEat hfound (turns_ifEat hfound (turns_ifEat hfound (turns_ifEat (finds_bind fun _ => finds_bind
    fun _ => hfound) (turns_ifEat hfound (turns_ifEat hfound (turns_ifEat hfound turns_none)))))))))))

theorem turns_componentDecl (offset : Nat) : Turns (componentDecl offset) := by
  intro n b begun known reports place
  refine marked_annotationList.bind fun annotations => ?_
  cases annotations with
  | nil =>
    have hend (kind : FunctionKind) : Turns (do
        if ← eat Terminal.declareVariable then
          return some (DeclarationKind.variableDecl (← variableDecl [] offset))
        if ← eat Terminal.declareFunction then
          return some (.functionDecl (← functionDecl [] kind offset))
        if !([] : List AnnotationDecl).isEmpty || kind != .simple then
          unexpected "'variable' or 'function'"
        return none) := by
      refine turns_ifEat (finds_bind fun _ => finds_some _) (turns_ifEat (finds_bind fun _ => finds_some _) ?_)
      refine fun _ _ _ _ _ _ => Contract.ite (fun _ => ?_) fun _ => turns_none _ _ _ _ _ _
      exact fun _ _ => trivial
    have hkind : Contract (Marked n b begun known reports place) functionKind
        (fun _ => Marked n b begun known reports place) fun _ _ => True :=
      (ledgerAt_eatFirst _ _).bind fun _ _ hs => hs
    exact Contract.weaken (hkind.bind fun kind => hend kind n b begun known reports place) (fun _ hs => hs rfl)
      fun _ _ hs => hs
  | cons first annotations =>
    refine Finds.otherwise ?_
    refine (Contract.any _ _).bind fun kind => ?_
    refine (Contract.any _ _).bind fun _ => Contract.ite (fun _ => ?_) fun _ => ?_
    · exact finds_bind fun _ => finds_some _
    refine (Contract.any _ _).bind fun _ => Contract.ite (fun _ => ?_) fun _ => ?_
    · exact finds_bind fun _ => finds_some _
    · exact fun _ _ => trivial

theorem turns_declared (offset : Nat) : Turns (declared offset) := by
  have hfound {p : Parser DeclarationKind} {part : Section} : Finds (do return some (← p, part)) :=
    finds_bind fun _ => finds_some _
  refine (turns_setterDecl offset).bind ?_ fun _ => finds_some _
  refine turns_ifEat hfound (turns_ifEat hfound (turns_ifEat hfound (turns_ifEat hfound ?_)))
  exact (turns_componentDecl offset).bind turns_none fun _ => finds_some _

/-! ### Heads of declarations -/

/-- Behind the word that opens a declaration: the declaration begins behind all others, and nothing that is
recorded stands there. -/
def Opened (n b : Nat) (begun : List Nat) (known : List DeclarationKey) (reports : List (ErrorCode × Nat))
    (s : ParserState) : Prop :=
  b ≤ s.scan.tokenStart ∧
    s.Ledgered n (s.scan.tokenStart + 1) (s.scan.tokenStart :: begun) known reports

/-- A word that opens a declaration stands behind everything that has been reported. -/
theorem contract_open {r : Rule} (hr : r.isVisible = true) :
    Contract (Marked n b begun known reports place) (eat r)
      (fun matched s => Marked n b begun known reports place s ∧
        (matched = true → Opened n b begun known reports s)) fun _ _ => True := by
  intro s hs
  have heat := ledgerAt_eat (some place) r s hs
  cases he : eat r s with
  | error e s' => trivial
  | ok matched s' =>
    rw [he] at heat
    refine ⟨heat, ?_⟩
    rintro rfl
    have htook (x : Nat) (hx : s.scan.Behind n x) : s'.scan.Took n x :=
      Contract.of_ok (Order.leads_eat hr) hx he
    have hrecorded : s'.recorded = s.recorded := by
      unfold eat scan at he
      split at he <;> cases he
      rfl
    have hbegin := htook b hs.1.behind
    refine ⟨hbegin.start, hbegin.behind, nofun, heat.1.malformed, heat.1.known, ?_⟩
    have hsame : ∀ d ∈ s'.recorded, d.report? (s'.scan.tokenStart :: begun) = d.report? begun := by
      intro d hd
      by_cases hcode : d.code = .malformed
      · rw [hrecorded] at hd
        have hlt : d.offset < s'.scan.tokenStart := (htook _ (hs.1.malformed d hd hcode)).start
        simp [Diagnostic.report?, Nat.ne_of_lt hlt]
      · simp [Diagnostic.report?, hcode]
    rw [List.filterMap_congr hsame]
    exact heat.1.reports

theorem contract_openFirst {table : List (Rule × Unit)} (htable : ∀ x ∈ table, x.1.isVisible = true) :
    Contract (Marked n b begun known reports place) (eatFirst table)
      (fun found s => Marked n b begun known reports place s ∧
        (found.isSome = true → Opened n b begun known reports s)) fun _ _ => True := by
  induction table with
  | nil => exact fun _ hs => ⟨hs, nofun⟩
  | cons entry rest ih =>
    obtain ⟨hentry, hrest⟩ := List.forall_mem_cons.1 htable
    refine (contract_open hentry).bind fun matched => ?_
    cases matched with
    | false => exact Contract.weaken (ih hrest) (fun _ hs => hs.1) fun _ _ hs => hs
    | true => exact fun s hs => ⟨hs.1, fun _ => hs.2 rfl⟩

/-- What follows the word may use the place where it stands. -/
theorem contract_start {post : β → ParserState → Prop} {next : Nat → Parser β}
    (hn : ∀ offset, b ≤ offset → Contract (fun s => Marked n b begun known reports place s ∧
      s.Ledgered n (offset + 1) (offset :: begun) known reports) (next offset) post fun _ _ => True) :
    Contract (fun s => Marked n b begun known reports place s ∧ Opened n b begun known reports s)
      (start >>= next) post fun _ _ => True :=
  fun s hs => hn s.scan.tokenStart hs.2.1 s ⟨hs.1, hs.2.2⟩

/-- Behind the head of a declaration its keys are looked up; without one the ledger is as it was. -/
def HeadRead (n b : Nat) (begun : List Nat) (known : List DeclarationKey) (reports : List (ErrorCode × Nat))
    (found : Option DeclarationHead) (s : ParserState) : Prop :=
  found.elim (s.Ledgered n b begun known reports) fun head =>
    b ≤ head.decl.offset ∧ head.decl.kind.part = head.part ∧
      s.Ledgered n (head.decl.offset + 1) (head.decl.offset :: begun) (head.decl.kind.keys.reverse ++ known)
        (reports ++ repetitions known head.decl.kind.keys head.decl.offset)

theorem contract_declares {keys : α → List DeclarationKey} {good : α → Prop} {offset : Nat}
    (h : Declares keys good [] offset p) (hbegun : ∀ o ∈ begun, o < offset + 1) :
    Contract (ParserState.Ledgered n (offset + 1) (offset :: begun) known reports) p
      (fun a s => good a ∧ s.Ledgered n (offset + 1) (offset :: begun) ((keys a).reverse ++ known)
        (reports ++ repetitions known (keys a) offset)) fun _ _ => True := by
  have h := h n (offset + 1) (offset :: begun) known reports
    (List.forall_mem_cons.2 ⟨Nat.lt_succ_self offset, hbegun⟩)
  have hnil : repetitions known [] offset = [] := rfl
  rwa [hnil, List.append_nil] at h

/-- The head of a declaration, in a state whose place is marked. -/
theorem contract_markedHead (place : Matcher.Mark) (hbegun : ∀ o ∈ begun, o < b) :
    Contract (Marked n b begun known reports place) (do
      if ← eat Terminal.importSchema then
        let offset ← start
        return some ⟨⟨← schemaImport offset, offset⟩, .setup, none⟩
      if ← eat Terminal.importModule then
        let offset ← start
        let (library, isNew) ← moduleImport offset
        return some ⟨⟨.moduleImport library, offset⟩, .setup, if isNew then some library else none⟩
      if (← eatFirst [(Terminal.declareWord, ()), (Terminal.declareAnnotated, ())]).isNone then
        return none
      let offset ← start
      match ← declared offset with
      | some (kind, part) => return some ⟨⟨kind, offset⟩, part, none⟩
      | none =>
        restore place
        return none) (HeadRead n b begun known reports) fun _ _ => True := by
  have hbehind {offset : Nat} (ho : b ≤ offset) : ∀ o ∈ begun, o < offset + 1 := fun o hm =>
    Nat.lt_succ_of_le (Nat.le_trans (Nat.le_of_lt (hbegun o hm)) ho)
  have hopened {no : Parser (Option DeclarationHead)} {yes : Nat → Parser (Option DeclarationHead)} {r : Rule}
      (hr : r.isVisible = true)
      (hy : ∀ offset, b ≤ offset → Contract (ParserState.Ledgered n (offset + 1) (offset :: begun) known reports)
        (yes offset) (HeadRead n b begun known reports) fun _ _ => True)
      (hn : Contract (Marked n b begun known reports place) no (HeadRead n b begun known reports)
        fun _ _ => True) :
      Contract (Marked n b begun known reports place)
        (eat r >>= fun matched => if matched then start >>= yes else no) (HeadRead n b begun known reports)
        fun _ _ => True := by
    refine (contract_open hr).bind fun matched => ?_
    cases matched with
    | false => exact Contract.weaken hn (fun _ hs => hs.1) fun _ _ hs => hs
    | true =>
      refine Contract.weaken (contract_start fun offset ho => ?_) (fun _ hs => ⟨hs.1, hs.2 rfl⟩) fun _ _ hs => hs
      exact Contract.weaken (hy offset ho) (fun _ hs => hs.2) fun _ _ hs => hs
  refine hopened (by rfl) (fun offset ho => ?_) (hopened (by rfl) (fun offset ho => ?_) ?_)
  · refine (contract_declares (declares_schemaImport offset) (hbehind ho)).bind fun kind => ?_
    exact fun s hs => ⟨ho, hs⟩
  · refine (contract_declares (declares_moduleImport offset) (hbehind ho)).bind fun ⟨library, isNew⟩ => ?_
    exact fun s hs => ⟨ho, rfl, hs.2⟩
  refine (contract_openFirst (by decide)).bind fun word => ?_
  cases word with
  | none => exact fun s hs => hs.1.1
  | some _ =>
    refine Contract.weaken (contract_start fun offset ho => ?_) (fun _ hs => ⟨hs.1, hs.2 rfl⟩) fun _ _ hs => hs
    have hkeys : Contract (ParserState.Ledgered n (offset + 1) (offset :: begun) known reports) (declared offset)
        _ _ := contract_declares (declares_declared offset) (hbehind ho)
    have hdeclared := (turns_declared offset n b begun known reports place).and hkeys
    intro s' hs'
    have hends := hdeclared s' hs'
    cases hr : declared offset s' with
    | error e s'' =>
      rw [bind_of_error hr]
      trivial
    | ok found s'' =>
      rw [hr] at hends
      rw [bind_of_ok hr]
      rcases found with _ | ⟨kind, part⟩
      · exact (hends.1 rfl).2 _ rfl
      · exact ⟨ho, hends.2.1 _ rfl, hends.2.2⟩

theorem contract_declarationHead (hbegun : ∀ o ∈ begun, o < b) :
    Contract (ParserState.Ledgered n b begun known reports) declarationHead
      (HeadRead n b begun known reports) fun _ _ => True := by
  intro s hs
  refine contract_markedHead s.scan.mark hbegun s ⟨hs, ?_⟩
  rintro _ ⟨⟩
  exact hs.moved fun x hx => ⟨hx.size, hx.place⟩

/-! ### Prologs -/

/-- Behind the declarations: they begin one behind the other, and the ledger holds what they call for. -/
structure PrologRead (n b : Nat) (begun : List Nat) (known : List DeclarationKey)
    (reports : List (ErrorCode × Nat)) (part : Section) (ds : List Declaration) (s : ParserState) : Prop where
  ordered : (ds.map Declaration.offset).Pairwise (· < ·)
  behind : ∀ d ∈ ds, b ≤ d.offset
  ledger : ∃ b' known', (∀ o ∈ (ds.map Declaration.offset).reverse ++ begun, o < b') ∧
    s.Ledgered n b' ((ds.map Declaration.offset).reverse ++ begun) known' (reports ++ dueReports known part ds)

/-- A declaration that comes too late is reported where it begins. -/
theorem contract_late (offset : Nat) (message : String) :
    Contract (ParserState.Ledgered n (offset + 1) (offset :: begun) known reports)
      (record .malformed offset message)
      (fun _ => ParserState.Ledgered n (offset + 1) (offset :: begun) known (reports ++ [(.malformed, offset)]))
      fun _ _ => True := by
  intro s hs
  have hnoted := hs.noted (d := .error .malformed offset message) fun _ => hs.behind
  have hreport : (Diagnostic.error .malformed offset message).report? (offset :: begun) =
      some (.malformed, offset) := if_pos (.inr ⟨rfl, List.mem_cons_self⟩)
  rw [hreport] at hnoted
  exact hnoted

/-- What is known besides the ledger may be assumed. -/
theorem contract_of_and {τ : Type} {q : Prop} {pre : τ → Prop} {p : EStateM Stop τ α} {post : α → τ → Prop}
    (h : q → Contract pre p post fun _ _ => True) : Contract (fun s => q ∧ pre s) p post fun _ _ => True :=
  fun s hs => h hs.1 s hs.2

theorem contract_declarationsWithin {σ : Type} (steps : Nat) (part : Section) (hbegun : ∀ o ∈ begun, o < b) :
    Contract (fun s => s.1.Ledgered n b begun known reports)
      (declarationsWithin none steps part : ModuleParser σ (List Declaration))
      (fun ds s => PrologRead n b begun known reports part ds s.1) fun _ _ => True := by
  induction steps generalizing part b begun known reports with
  | zero => exact fun _ _ => trivial
  | succ steps ih =>
    have hhead : Contract (ParserState.Ledgered n b begun known reports) declarationHead _ _ :=
      contract_declarationHead hbegun
    refine (contract_lift hhead).bind ?_
    rintro (_ | ⟨⟨kind, offset⟩, part', pending⟩)
    · intro s hs
      refine ⟨List.Pairwise.nil, List.forall_mem_nil _, b, known, hbegun, ?_⟩
      rw [dueReports, List.append_nil]
      exact hs
    refine contract_of_and fun ho => contract_of_and fun hpart => ?_
    obtain rfl : kind.part = part' := hpart
    have hbegun' : ∀ o ∈ offset :: begun, o < offset + 1 := by
      refine List.forall_mem_cons.2 ⟨Nat.lt_succ_self offset, fun o hm => ?_⟩
      exact Nat.lt_succ_of_le (Nat.le_trans (Nat.le_of_lt (hbegun o hm)) ho)
    dsimp -zeta only
    extract_lets further rest
    have hfurther (a : Unit) : Contract (fun s => s.1.Ledgered n (offset + 1) (offset :: begun)
        (kind.keys.reverse ++ known) (reports ++ repetitions known kind.keys offset ++
          if part = .declarations ∧ kind.part = .setup then [(.malformed, offset)] else []))
        (further a) (fun ds s => PrologRead n b begun known reports part ds s.1) fun _ _ => True := by
      refine (ih (if kind.part = .declarations then .declarations else part) hbegun').bind fun ds s hs => ?_
      obtain ⟨b', known', hb', hledger⟩ := hs.ledger
      have hoffsets : ((⟨kind, offset⟩ :: ds).map Declaration.offset).reverse ++ begun =
          (ds.map Declaration.offset).reverse ++ offset :: begun := by simp
      refine ⟨?_, ?_, b', known', ?_, ?_⟩
      · refine List.pairwise_cons.2 ⟨fun o hm => ?_, hs.ordered⟩
        obtain ⟨d, hd, rfl⟩ := List.mem_map.1 hm
        exact hs.behind d hd
      · exact List.forall_mem_cons.2 ⟨ho, fun d hd => Nat.le_trans (Nat.le_succ_of_le ho) (hs.behind d hd)⟩
      · rwa [hoffsets]
      · rw [hoffsets, dueReports, ← List.append_assoc, ← List.append_assoc]
        exact hledger
    have hrest (a : Unit) : Contract (fun s => s.1.Ledgered n (offset + 1) (offset :: begun)
        (kind.keys.reverse ++ known) (reports ++ repetitions known kind.keys offset)) (rest a)
        (fun ds s => PrologRead n b begun known reports part ds s.1) fun _ _ => True := by
      have hsemicolon := contract_lift (σ := σ) ((plain_expect Terminal.semicolon).leaves n (offset + 1)
        (offset :: begun) (kind.keys.reverse ++ known) (reports ++ repetitions known kind.keys offset) hbegun')
      refine hsemicolon.bind fun _ => Contract.ite (fun hlate => ?_) fun hlate => ?_
      · rw [if_pos hlate] at hfurther
        exact (contract_lift (contract_late offset _)).bind fun _ => hfurther ()
      · rw [if_neg hlate, List.append_nil] at hfurther
        exact hfurther ()
    cases pending with
    | none => exact hrest ()
    | some library => exact hrest ()

/-! ### Modules -/

theorem leaves_checkVersion (decl : VersionDecl) : Leaves (checkVersion decl) := by
  unfold checkVersion
  extract_lets finish checkEncoding
  have hfinish (a : Unit) : Leaves (finish a) := (plain_expect _).leaves.seq fun _ => leaves_pure _
  have hencoding (a : Unit) : Leaves (checkEncoding a) := by
    dsimp only [checkEncoding]
    split
    · exact leaves_ite ((leaves_warn (by decide) _ _).seq fun _ => hfinish ())
        ((leaves_record (by decide) _ _).seq fun _ => hfinish ())
    · exact hfinish ()
  split
  · exact leaves_ite ((leaves_record (by decide) _ _).seq fun _ => hencoding ()) (hencoding ())
  · exact hencoding ()

theorem leaves_versionDecl : Leaves versionDecl := by
  refine (plain_eat _).leaves.seq fun _ => leaves_ite ?_ ((plain_eat _).leaves.seq fun _ => leaves_ite ?_
    (leaves_pure _))
  · refine (plain_observe _).leaves.seq fun offset => (plain_observe _).leaves.seq fun version => ?_
    refine (plain_whenEats (plain_observe _)).leaves.seq fun encoding => ?_
    exact (leaves_checkVersion _).seq fun _ => leaves_pure _
  · refine (plain_observe _).leaves.seq fun offset => (plain_observe _).leaves.seq fun encoding => ?_
    exact (leaves_checkVersion _).seq fun _ => leaves_pure _

theorem plain_expectEnd : Plain expectEnd :=
  Plain.seq (fun _ => .atEnd) fun _ => plain_ite (plain_unexpected _) (plain_pure _)

/-- The qualifier of a library is known in front of its declarations. -/
theorem contract_libraryHeader (hasLocation : Bool) :
    Contract (ParserState.Ledgered n 0 [] [] []) (libraryHeader hasLocation)
      (fun found => ParserState.Ledgered n 0 [] [.qualifier found.1] []) fun _ _ => True := by
  have hleaves {γ : Type} {p : Parser γ} (h : Leaves p) : Contract (ParserState.Ledgered n 0 [] [] []) p
      (fun _ => ParserState.Ledgered n 0 [] [] []) fun _ _ => True := h n 0 [] [] [] nofun
  refine (hleaves (plain_expect _).leaves).bind fun _ => (hleaves (plain_observe _).leaves).bind fun offset => ?_
  refine (hleaves (plain_expect _).leaves).bind fun _ => (hleaves (plain_observe _).leaves).bind fun qualifier => ?_
  refine (hleaves (plain_observe _).leaves).bind fun uri => ?_
  extract_lets rest
  have hrest (a : Unit) : Contract (ParserState.Ledgered n 0 [] [] []) (rest a)
      (fun found => ParserState.Ledgered n 0 [] [.qualifier found.1] []) fun _ _ => True := by
    refine (hleaves (plain_checkBinding qualifier uri offset).leaves).bind fun _ => ?_
    refine (hleaves (plain_bind qualifier uri).leaves).bind fun _ => ?_
    have hname : Contract (ParserState.Ledgered n 0 [] [] []) (modify fun s => { s with
        declaredPrefixes := qualifier :: s.declaredPrefixes
        module := if !hasLocation && uri != "" then ⟨uri⟩ else s.module
        libraryNamespace := some uri } : Parser Unit)
        (fun _ => ParserState.Ledgered n 0 [] [.qualifier qualifier] []) fun _ _ => True := by
      refine fun s hs => ⟨hs.behind, nofun, hs.malformed, fun k => ?_, hs.reports⟩
      have hk := hs.known k
      cases k with
      | qualifier other =>
        have hother : other ∉ s.declaredPrefixes := by simpa [ParserState.knows] using hk
        simp [ParserState.knows, hother]
      | _ => simpa [ParserState.knows] using hk
    refine hname.bind fun _ => ?_
    exact ((plain_expect _).leaves n 0 [] _ [] nofun).bind fun _ _ hs => hs
  exact Contract.ite (fun _ => (hleaves (leaves_record (by decide) _ _)).bind fun _ => hrest ()) fun _ => hrest ()

/-- Behind a whole module the reports about its declarations are those that they call for. -/
structure ModuleRead (m : Module) (s : ParserState) : Prop where
  ordered : m.offsets.Pairwise (· < ·)
  reports : s.recorded.filterMap (Diagnostic.report? m.offsets) = m.dueReports

theorem report?_congr {begun begun' : List Nat} (h : ∀ o, o ∈ begun' ↔ o ∈ begun) (d : Diagnostic) :
    d.report? begun' = d.report? begun := by
  simp only [Diagnostic.report?, h]

/-- What comes behind the declarations leaves the reports about them alone. -/
theorem contract_behindProlog {ds : List Declaration} (hp : Plain p) :
    Contract (PrologRead n 0 [] known [] .setup ds) p (fun _ => PrologRead n 0 [] known [] .setup ds)
      fun _ _ => True := by
  intro s hs
  obtain ⟨b', known', hb', hledger⟩ := hs.ledger
  have hends := hp.leaves n b' _ known' _ hb' s hledger
  cases hr : p s with
  | error e s' => trivial
  | ok a s' =>
    rw [hr] at hends
    exact ⟨hs.ordered, hs.behind, b', known', hb', hends⟩

theorem PrologRead.moduleRead {m : Module} {s : ParserState}
    (h : PrologRead n 0 [] m.ownKeys [] .setup m.prolog.declarations s) : ModuleRead m s := by
  obtain ⟨b', known', -, hledger⟩ := h.ledger
  refine ⟨h.ordered, ?_⟩
  have hmem (o : Nat) : o ∈ m.offsets ↔ o ∈ (m.prolog.declarations.map Declaration.offset).reverse ++ [] := by
    simp [Module.offsets]
  rw [List.filterMap_congr fun d _ => report?_congr hmem d]
  exact hledger.reports

theorem contract_prolog {σ : Type} (version : Option VersionDecl) :
    Contract (fun s => s.1.Ledgered n 0 [] known [])
      (prolog none version : ModuleParser σ Prolog)
      (fun p s => PrologRead n 0 [] known [] .setup p.declarations s.1) fun _ _ => True := by
  rintro ⟨s, imports⟩ hs
  have hdeclarations : Contract (fun s => s.1.Ledgered n 0 [] known [])
      (declarationsWithin none s.steps .setup : ModuleParser σ (List Declaration)) _ _ :=
    contract_declarationsWithin s.steps .setup (List.forall_mem_nil _)
  exact (hdeclarations.bind fun ds => Contract.pure fun _ hs => hs) (s, imports) hs

theorem contract_mainModule {σ : Type} (version : Option VersionDecl) :
    Contract (fun s => s.1.Ledgered n 0 [] [] []) (mainModule none version : ModuleParser σ Module)
      (fun m s => ModuleRead m s.1) fun _ _ => True := by
  refine (contract_prolog version).bind fun p => ?_
  refine (contract_lift (contract_behindProlog (plain_queryBody plain_exprSingle))).bind fun body => ?_
  refine (contract_lift (contract_behindProlog plain_expectEnd)).bind fun _ => ?_
  exact fun s hs => PrologRead.moduleRead (m := .main p body) hs

theorem contract_libraryModule {σ : Type} (hasLocation : Bool) (version : Option VersionDecl) :
    Contract (fun s => s.1.Ledgered n 0 [] [] [])
      (libraryModule none hasLocation version : ModuleParser σ Module) (fun m s => ModuleRead m s.1)
      fun _ _ => True := by
  refine (contract_lift (contract_libraryHeader hasLocation)).bind fun ⟨qualifier, uri⟩ => ?_
  refine (contract_prolog version).bind fun p => ?_
  refine (contract_lift (contract_behindProlog plain_expectEnd)).bind fun _ => ?_
  exact fun s hs => PrologRead.moduleRead (m := .library qualifier uri p) hs

theorem contract_moduleUnit {σ : Type} (kind : Option ModuleKind) (hasLocation : Bool) :
    Contract (fun s => s.1.Ledgered n 0 [] [] [])
      (moduleUnit none kind hasLocation : ModuleParser σ Module) (fun m s => ModuleRead m s.1)
      fun _ _ => True := by
  refine (contract_lift (leaves_versionDecl n 0 [] [] [] nofun)).bind fun version => ?_
  refine (contract_lift ((plain_peek _).leaves n 0 [] [] [] nofun)).bind fun isLibrary => ?_
  split
  · exact fun _ _ => trivial
  · exact contract_libraryModule hasLocation version
  · exact contract_libraryModule hasLocation version
  · exact contract_mainModule version

end Repetition

end XQuerySyntax
