import XQuerySyntax.Proofs.RoundTrip.ClausePhrase
import XQuerySyntax.Proofs.RoundTrip.KindTest

/-! Paths of axis steps as they are written. A step has its axis and its test, or stands abbreviated; a
double slash stands for a step to all descendants between two slashes. What a path means is said of its
steps written out, so that paths that differ in abbreviations mean the same. -/

namespace XQuerySyntax

/-! ### Steps -/

/-- What a step asks of a node, as it is written. -/
inductive StepTest where
  | name (n : LexicalName)
  /-- Any name. -/
  | any
  /-- Any name of a namespace. -/
  | inNamespace (qualifier : String)
  /-- A local name in any namespace. -/
  | localPart (name : String)
  | kind (test : KindTest)

namespace StepTest

/-- The axis of a test that stands alone. -/
def axis : StepTest → Axis
  | .kind (.attribute ..) | .kind (.schemaAttribute _) => .attribute
  | .kind .namespaceNode => .namespaceAxis
  | _ => .child

/-- The namespace of a name on an axis: without a qualifier it is that of elements, except for attributes
and namespaces. -/
def namespaceUri? (c : StaticContext) (axis : Axis) (n : LexicalName) : Option String :=
  match n.qualifier with
  | some q => c.resolve? q
  | none => if axis = .attribute ∨ axis = .namespaceAxis then none else c.elementNamespace?

/-- The test in a tree. -/
def node (c : StaticContext) (axis : Axis) : StepTest → NodeTest
  | name n => .name (.name ⟨n.qualifier, n.localPart, namespaceUri? c axis n⟩)
  | any => .name .any
  | inNamespace q => .name (.inNamespace q (c.resolve? q))
  | localPart l => .name (.localPart l)
  | kind test => .kind test

/-- The text is the test and then `rest`. -/
def Lays : StepTest → List Char → List Char → Prop
  | name n, text, rest => Laid [.name ⟨n.qualifier, n.localPart, none⟩] text rest
  | any, text, rest => Laid [.mark "*"] text rest
  | inNamespace q, text, rest => ∃ space, Trivia space ∧ isName q.toList ∧
      text = space ++ (q.toList ++ ':' :: '*' :: rest)
  | localPart l, text, rest => ∃ space, Trivia space ∧ isName l.toList ∧ endsName rest ∧
      text = space ++ ('*' :: ':' :: (l.toList ++ rest))
  | kind test, text, rest => Laid test.pieces text rest

/-- The names of a kind test resolve. -/
def WellWritten (c : StaticContext) : StepTest → Prop
  | kind test => test.WellWritten c
  | _ => True

end StepTest

/-- The axis and the test of a step, or what stands for both. -/
inductive StepForm where
  | full (axis : Axis) (test : StepTest)
  /-- A test alone. -/
  | bare (test : StepTest)
  /-- A test behind an at sign. -/
  | attribute (test : StepTest)
  /-- Two dots. -/
  | parent

/-- The name of an axis. -/
def Axis.name : Axis → String
  | child => "child"
  | descendant => "descendant"
  | .attribute => "attribute"
  | self => "self"
  | descendantOrSelf => "descendant-or-self"
  | followingSibling => "following-sibling"
  | following => "following"
  | namespaceAxis => "namespace"
  | parent => "parent"
  | ancestor => "ancestor"
  | precedingSibling => "preceding-sibling"
  | preceding => "preceding"
  | ancestorOrSelf => "ancestor-or-self"

namespace StepForm

/-- The axis and the test written out. -/
def meaning : StepForm → Axis × StepTest
  | full axis test => (axis, test)
  | bare test => (test.axis, test)
  | .attribute test => (.attribute, test)
  | parent => (.parent, .kind .anyKind)

/-- The text is the axis and the test, or what stands for them, and then `rest`. -/
def Lays : StepForm → List Char → List Char → Prop
  | full axis test, text, rest =>
    ∃ mid, Laid [.mark axis.name, .mark "::"] text mid ∧ test.Lays mid rest
  | bare test, text, rest => test.Lays text rest
  | .attribute test, text, rest => ∃ mid, Laid [.mark "@"] text mid ∧ test.Lays mid rest
  | parent, text, rest => Laid [.mark ".."] text rest

end StepForm

/-- A step with the texts of its predicates. -/
structure WrittenStep where
  form : StepForm
  predicates : List (List Char)

/-- The text is predicates in brackets, and then `rest`. -/
inductive BracketsLay : List (List Char) → List Char → List Char → Prop where
  | nil (rest : List Char) : BracketsLay [] rest rest
  | cons {predicate space text rest : List Char} {predicates : List (List Char)} (hspace : Trivia space)
      (htext : BracketsLay predicates text rest) :
      BracketsLay (predicate :: predicates) (space ++ '[' :: (predicate ++ ']' :: text)) rest

namespace WrittenStep

/-- The step to a node and all its descendants. -/
def descend : WrittenStep := ⟨.full .descendantOrSelf (.kind .anyKind), []⟩

/-- The step with its axis and its test written out. -/
def expanded (s : WrittenStep) : WrittenStep := ⟨.full s.form.meaning.1 s.form.meaning.2, s.predicates⟩

/-- The text is the step and then `rest`. -/
def Lays (s : WrittenStep) (text rest : List Char) : Prop :=
  ∃ mid, s.form.Lays text mid ∧ BracketsLay s.predicates mid rest

/-- The step as a tree, with nothing said of where it stands, given the trees of predicates. -/
def tree (c : StaticContext) (module : ModuleId) (meaning : List Char → Expr) (s : WrittenStep) : Expr :=
  .mk (.step s.form.meaning.1 (s.form.meaning.2.node c s.form.meaning.1) (s.predicates.map meaning)) 0 module

end WrittenStep

/-! ### Paths -/

/-- What stands between two steps. -/
inductive Joint where
  | slash
  | doubleSlash
  deriving DecidableEq

/-- Where a path begins, and its steps. -/
structure WrittenPath where
  root : PathRoot
  first : WrittenStep
  more : List (Joint × WrittenStep)

namespace Joint

/-- The step that is left out between the slashes. -/
def hidden : Joint → List WrittenStep
  | slash => []
  | doubleSlash => [.descend]

/-- The slashes. -/
def mark : Joint → Piece
  | slash => .mark "/"
  | doubleSlash => .mark "//"

end Joint

/-- What stands in front of the first step. -/
def PathRoot.joints : PathRoot → List Joint
  | relative => []
  | root => [.slash]
  | rootDescendants => [.doubleSlash]

/-- The text is steps with slashes in front of them, and then `rest`. -/
inductive JointsLay : List (Joint × WrittenStep) → List Char → List Char → Prop where
  | nil (rest : List Char) : JointsLay [] rest rest
  | cons {joint : Joint} {step : WrittenStep} {more : List (Joint × WrittenStep)}
      {text mid behind rest : List Char} (hjoint : Laid [joint.mark] text mid) (hstep : step.Lays mid behind)
      (hmore : JointsLay more behind rest) : JointsLay ((joint, step) :: more) text rest

namespace WrittenPath

/-- The steps in the order of the text, with those that double slashes leave out. -/
def steps (p : WrittenPath) : List WrittenStep :=
  p.root.joints.flatMap Joint.hidden ++ p.first :: p.more.flatMap fun (joint, step) => joint.hidden ++ [step]

/-- The path with every abbreviation behind its root written out. -/
def expanded (p : WrittenPath) : WrittenPath where
  root := p.root
  first := p.first.expanded
  more := p.more.flatMap fun (joint, step) => (joint.hidden ++ [step.expanded]).map (Joint.slash, ·)

/-- The text is the path and then `rest`. -/
def Lays (p : WrittenPath) (text rest : List Char) : Prop :=
  ∃ inside behind, Laid (p.root.joints.map Joint.mark) text inside ∧ p.first.Lays inside behind ∧
    JointsLay p.more behind rest

/-- The path as a tree, with nothing said of where it stands, given the trees of predicates. -/
def tree (c : StaticContext) (module : ModuleId) (meaning : List Char → Expr) (p : WrittenPath) : Expr :=
  .mk (.path p.root (p.steps.map (·.tree c module meaning))) 0 module

/-- Every predicate of the path. -/
def predicates (p : WrittenPath) : List (List Char) :=
  p.first.predicates ++ p.more.flatMap (·.2.predicates)

/-- The tests of the path, as they are written. -/
def tests (p : WrittenPath) : List StepTest :=
  p.first.form.meaning.2 :: p.more.map (·.2.form.meaning.2)

/-- The steps that are written, in the order of the text. -/
def written (p : WrittenPath) : List WrittenStep := p.first :: p.more.map (·.2)

/-- What stands in front of the steps and between them. -/
def joints (p : WrittenPath) : List Joint := p.root.joints ++ p.more.map (·.1)

/-- Steps are left out, and none is moved. -/
theorem written_sublist_steps (p : WrittenPath) : p.written.Sublist p.steps := by
  have hmore (more : List (Joint × WrittenStep)) :
      (more.map (·.2)).Sublist (more.flatMap fun (joint, step) => joint.hidden ++ [step]) := by
    induction more with
    | nil => exact .slnil
    | cons entry more ih => exact (List.sublist_append_right _ [entry.2]).append ih
  exact ((hmore p.more).cons_cons p.first).trans (List.sublist_append_right _ _)

/-- Each double slash leaves one step out, and a slash none. -/
theorem length_steps (p : WrittenPath) :
    p.steps.length = p.written.length + p.joints.count .doubleSlash := by
  have hroot : (p.root.joints.flatMap Joint.hidden).length = p.root.joints.count .doubleSlash := by
    cases p.root <;> rfl
  have hmore (more : List (Joint × WrittenStep)) :
      (more.flatMap fun (joint, step) => joint.hidden ++ [step]).length =
        more.length + (more.map (·.1)).count .doubleSlash := by
    induction more with
    | nil => rfl
    | cons entry more ih =>
      obtain ⟨joint, step⟩ := entry
      rw [List.flatMap_cons, List.length_append, ih]
      cases joint <;> simp [Joint.hidden] <;> omega
  rw [steps, List.length_append, List.length_cons, hroot, hmore, written, joints, List.count_append]
  simp only [List.length_cons, List.length_map]
  omega

end WrittenPath

/-! ### The texts of paths -/

section

variable {text mid rest after : List Char}

theorem StepTest.length_le {test : StepTest} (h : test.Lays text rest) : rest.length ≤ text.length := by
  cases test with
  | name n =>
    have hname : Laid [.name ⟨n.qualifier, n.localPart, none⟩] text rest := h
    exact (Nat.le_add_right _ _).trans hname.length_le
  | any =>
    have hstar : Laid [.mark "*"] text rest := h
    exact (Nat.le_add_right _ _).trans hstar.length_le
  | inNamespace q =>
    obtain ⟨space, -, -, rfl⟩ := h
    simp only [List.length_append, List.length_cons]
    omega
  | localPart l =>
    obtain ⟨space, -, -, -, rfl⟩ := h
    simp only [List.length_append, List.length_cons]
    omega
  | kind t =>
    have hkind : Laid t.pieces text rest := h
    exact (Nat.le_add_right _ _).trans hkind.length_le

theorem StepForm.length_le {form : StepForm} (h : form.Lays text rest) : rest.length ≤ text.length := by
  cases form with
  | full axis test =>
    obtain ⟨mid, haxis, htest⟩ := h
    exact (StepTest.length_le htest).trans ((Nat.le_add_right _ _).trans haxis.length_le)
  | bare test =>
    have htest : test.Lays text rest := h
    exact StepTest.length_le htest
  | «attribute» test =>
    obtain ⟨mid, hat, htest⟩ := h
    exact (StepTest.length_le htest).trans ((Nat.le_add_right _ _).trans hat.length_le)
  | parent =>
    have hdots : Laid [.mark ".."] text rest := h
    exact (Nat.le_add_right _ _).trans hdots.length_le

theorem BracketsLay.length_le {predicates : List (List Char)} (h : BracketsLay predicates text rest) : rest.length ≤ text.length := by
  induction h with
  | nil => exact Nat.le_refl _
  | cons _ _ ih =>
    simp only [List.length_append, List.length_cons]
    omega

theorem WrittenStep.length_le {s : WrittenStep} (h : s.Lays text rest) : rest.length ≤ text.length := by
  obtain ⟨mid, hform, hbrackets⟩ := h
  exact hbrackets.length_le.trans (StepForm.length_le hform)

theorem JointsLay.length_le {more : List (Joint × WrittenStep)} (h : JointsLay more text rest) : rest.length ≤ text.length := by
  induction h with
  | nil => exact Nat.le_refl _
  | cons hjoint hstep _ ih =>
    exact ih.trans ((WrittenStep.length_le hstep).trans ((Nat.le_add_right _ _).trans hjoint.length_le))

theorem BracketsLay.length_lt {predicates : List (List Char)} (h : BracketsLay predicates text rest) :
    ∀ q ∈ predicates, q.length < text.length := by
  induction h with
  | nil => exact fun q hq => absurd hq List.not_mem_nil
  | cons _ _ ih =>
    intro q hq
    simp only [List.length_append, List.length_cons]
    rcases List.mem_cons.1 hq with rfl | hq
    · omega
    · have hlt := ih q hq
      omega

theorem WrittenStep.length_lt {s : WrittenStep} (h : s.Lays text rest) :
    ∀ q ∈ s.predicates, q.length < text.length := by
  obtain ⟨mid, hform, hbrackets⟩ := h
  exact fun q hq => (hbrackets.length_lt q hq).trans_le (StepForm.length_le hform)

theorem JointsLay.length_lt {more : List (Joint × WrittenStep)} (h : JointsLay more text rest) :
    ∀ q ∈ more.flatMap (·.2.predicates), q.length < text.length := by
  induction h with
  | nil => exact fun q hq => absurd hq List.not_mem_nil
  | cons hjoint hstep _ ih =>
    intro q hq
    have hmid := hjoint.length_le
    rw [List.flatMap_cons, List.mem_append] at hq
    rcases hq with hq | hq
    · have hlt := WrittenStep.length_lt hstep q hq
      omega
    · have hlt := ih q hq
      have hbehind := WrittenStep.length_le hstep
      omega

/-- A predicate is shorter than the path around it, in which its brackets stand as well. -/
theorem WrittenPath.length_lt {p : WrittenPath} (h : p.Lays text rest) :
    ∀ q ∈ p.predicates, q.length < text.length := by
  obtain ⟨inside, behind, hjoints, hfirst, hmore⟩ := h
  have hinside := hjoints.length_le
  intro q hq
  rcases List.mem_append.1 hq with hq | hq
  · have hlt := WrittenStep.length_lt hfirst q hq
    omega
  · have hlt := hmore.length_lt q hq
    have hbehind := WrittenStep.length_le hfirst
    omega

/-! What goes on with no piece may be put behind the text. -/

theorem StepTest.append_right {test : StepTest} (h : test.Lays text rest)
    (hafter : ∀ piece : Piece, piece.Apart after) : test.Lays (text ++ after) (rest ++ after) := by
  cases test with
  | name n => exact Laid.append_right h hafter
  | any => exact Laid.append_right h hafter
  | inNamespace q =>
    obtain ⟨space, hspace, hq, rfl⟩ := h
    exact ⟨space, hspace, hq, by simp⟩
  | localPart l =>
    obtain ⟨space, hspace, hl, hends, rfl⟩ := h
    refine ⟨space, hspace, hl, ?_, by simp⟩
    cases rest with
    | nil => exact (hafter (.name default)).1
    | cons c cs => exact hends
  | kind t => exact Laid.append_right h hafter

theorem StepForm.append_right {form : StepForm} (h : form.Lays text rest)
    (hafter : ∀ piece : Piece, piece.Apart after) : form.Lays (text ++ after) (rest ++ after) := by
  cases form with
  | full axis test =>
    obtain ⟨mid, haxis, htest⟩ := h
    exact ⟨mid ++ after, haxis.append_right hafter, StepTest.append_right htest hafter⟩
  | bare test =>
    have htest : test.Lays text rest := h
    exact StepTest.append_right htest hafter
  | «attribute» test =>
    obtain ⟨mid, hat, htest⟩ := h
    exact ⟨mid ++ after, hat.append_right hafter, StepTest.append_right htest hafter⟩
  | parent => exact Laid.append_right h hafter

theorem BracketsLay.append_right {predicates : List (List Char)} (h : BracketsLay predicates text rest)
    (after : List Char) : BracketsLay predicates (text ++ after) (rest ++ after) := by
  induction h with
  | nil => exact .nil _
  | cons hspace _ ih =>
    rw [List.append_assoc, List.cons_append, List.append_assoc, List.cons_append]
    exact .cons hspace ih

theorem WrittenStep.append_right {s : WrittenStep} (h : s.Lays text rest)
    (hafter : ∀ piece : Piece, piece.Apart after) : s.Lays (text ++ after) (rest ++ after) := by
  obtain ⟨mid, hform, hbrackets⟩ := h
  exact ⟨mid ++ after, StepForm.append_right hform hafter, hbrackets.append_right after⟩

theorem JointsLay.append_right {more : List (Joint × WrittenStep)} (h : JointsLay more text rest)
    (hafter : ∀ piece : Piece, piece.Apart after) : JointsLay more (text ++ after) (rest ++ after) := by
  induction h with
  | nil => exact .nil _
  | cons hjoint hstep _ ih => exact .cons (hjoint.append_right hafter) (WrittenStep.append_right hstep hafter) ih

theorem WrittenPath.append_right {p : WrittenPath} (h : p.Lays text rest)
    (hafter : ∀ piece : Piece, piece.Apart after) : p.Lays (text ++ after) (rest ++ after) := by
  obtain ⟨inside, behind, hjoints, hfirst, hmore⟩ := h
  exact ⟨inside ++ after, behind ++ after, hjoints.append_right hafter,
    WrittenStep.append_right hfirst hafter, hmore.append_right hafter⟩

end

/-! ### Abbreviations -/

/-- The steps are the same written out, and their predicates have the same trees. -/
def WrittenStep.SameAs (meaning : List Char → Expr) (s s' : WrittenStep) : Prop :=
  s.form.meaning = s'.form.meaning ∧ s.predicates.map meaning = s'.predicates.map meaning

/-- The paths differ in abbreviations at most. -/
def WrittenPath.SameAs (meaning : List Char → Expr) (p p' : WrittenPath) : Prop :=
  p.root = p'.root ∧ List.Forall₂ (WrittenStep.SameAs meaning) p.steps p'.steps

variable {c : StaticContext} {module : ModuleId} {meaning : List Char → Expr}

theorem WrittenStep.sameAs_expanded (meaning : List Char → Expr) (s : WrittenStep) :
    s.SameAs meaning s.expanded := ⟨rfl, rfl⟩

theorem WrittenStep.SameAs.tree_eq {s s' : WrittenStep} (h : s.SameAs meaning s') :
    s.tree c module meaning = s'.tree c module meaning := by
  obtain ⟨hform, hpredicates⟩ := h
  rw [WrittenStep.tree, WrittenStep.tree, hform, hpredicates]

theorem WrittenStep.SameAs.trees_eq {steps steps' : List WrittenStep}
    (h : List.Forall₂ (WrittenStep.SameAs meaning) steps steps') :
    steps.map (·.tree c module meaning) = steps'.map (·.tree c module meaning) := by
  induction h with
  | nil => rfl
  | cons hstep _ ih => rw [List.map_cons, List.map_cons, hstep.tree_eq, ih]

namespace WrittenPath

theorem SameAs.tree_eq {p p' : WrittenPath} (h : p.SameAs meaning p') :
    p.tree c module meaning = p'.tree c module meaning := by
  obtain ⟨hroot, hsteps⟩ := h
  rw [tree, tree, hroot, WrittenStep.SameAs.trees_eq hsteps]

/-- Writing the abbreviations out changes nothing else. -/
theorem sameAs_expanded (meaning : List Char → Expr) (p : WrittenPath) : p.SameAs meaning p.expanded := by
  refine ⟨rfl, ?_⟩
  have hrefl (steps : List WrittenStep) : List.Forall₂ (WrittenStep.SameAs meaning) steps steps :=
    List.forall₂_same.2 fun _ _ => ⟨rfl, rfl⟩
  have hmore (more : List (Joint × WrittenStep)) : List.Forall₂ (WrittenStep.SameAs meaning)
      (more.flatMap fun (joint, step) => joint.hidden ++ [step])
      ((more.flatMap fun (joint, step) => (joint.hidden ++ [step.expanded]).map (Joint.slash, ·)).flatMap
        fun (joint, step) => joint.hidden ++ [step]) := by
    induction more with
    | nil => exact .nil
    | cons entry more ih =>
      obtain ⟨joint, step⟩ := entry
      cases joint with
      | slash => exact .cons ⟨rfl, rfl⟩ ih
      | doubleSlash => exact .cons ⟨rfl, rfl⟩ (.cons ⟨rfl, rfl⟩ ih)
  exact List.rel_append (hrefl _) (.cons ⟨rfl, rfl⟩ (hmore p.more))

end WrittenPath

end XQuerySyntax
