import XQuerySyntax.Proofs.Repetition.Prolog

/-! The account of a prolog: how many errors of each kind a parsed module has recorded about its
declarations, counted in the tree. Nothing is left out of the tree because it is given again or comes too
late. -/

namespace XQuerySyntax

open Grammar

/-- The number of errors of a kind. -/
def ParsedModule.reported (m : ParsedModule) (code : ErrorCode) : Nat :=
  m.diagnostics.countP fun d => d.code = code

/-- How often a setting is given. -/
def Module.given (m : Module) (s : Setter) : Nat := m.declared.countP fun kind => kind.setter? = some s

/-- The qualifiers that a module binds in its prolog, that of a library first. -/
def Module.qualifiers (m : Module) : List String :=
  (match m with
    | .main .. => []
    | .library qualifier _ _ => [qualifier]) ++ m.declared.filterMap DeclarationKind.qualifier?

/-- The errors about the declarations of a parsed module, counted in its tree. -/
structure ParsedModule.Accounted (m : ParsedModule) : Prop where
  /-- A setting that may be given once is reported each time but the first. -/
  settings : ∀ s, s ≠ .defaultElementNamespace → s ≠ .defaultFunctionNamespace →
    m.reported s.repetition = m.module.given s - 1
  defaultNamespaces : m.reported .duplicateDefaultNamespace =
    (m.module.given .defaultElementNamespace - 1) + (m.module.given .defaultFunctionNamespace - 1)
  functionKeys : m.reported .duplicateFunction =
    surplus (m.module.declared.filterMap DeclarationKind.functionKey?)
  variableNames : m.reported .duplicateVariable =
    surplus (m.module.declared.filterMap DeclarationKind.variableName?)
  qualifiers : m.reported .duplicateNamespacePrefix = surplus m.module.qualifiers
  moduleNamespaces : m.reported .duplicateModuleImport =
    surplus (m.module.declared.filterMap DeclarationKind.moduleNamespace?)
  schemaNamespaces : m.reported .duplicateSchemaImport =
    surplus (m.module.declared.filterMap DeclarationKind.schemaNamespace?)
  formatNames : m.reported .duplicateDecimalFormat =
    surplus (m.module.declared.filterMap DeclarationKind.formatName?)
  /-- What belongs to the first part of a prolog is reported behind a declaration of the second part. -/
  late : (m.diagnostics.countP fun d => d.code = .malformed ∧ d.offset ∈ m.module.offsets) =
    (m.module.declared.dropWhile fun kind => kind.part = .setup).countP fun kind => kind.part = .setup
  /-- Each of these errors is at a declaration of the tree, in source order, and there are no others. -/
  kept : m.diagnostics.filterMap (Diagnostic.report? m.module.offsets) = m.module.dueReports
  /-- No two declarations begin at the same place. -/
  ordered : m.module.offsets.Pairwise (· < ·)

/-! ### Counting -/

section

variable {α β κ : Type}

theorem flatMap_toList (f : α → Option β) (as : List α) : (as.flatMap fun a => (f a).toList) = as.filterMap f := by
  induction as with
  | nil => rfl
  | cons a as ih =>
    rw [List.flatMap_cons, ih]
    cases h : f a <;> simp [h]

theorem flatMap_ite (p : α → Prop) [DecidablePred p] (k : κ) (as : List α) :
    (as.flatMap fun a => if p a then [k] else []) = List.replicate (as.countP fun a => p a) k := by
  induction as with
  | nil => rfl
  | cons a as ih =>
    rw [List.flatMap_cons, ih, List.countP_cons]
    by_cases h : p a <;> simp [h, List.replicate_succ]

theorem length_filter_or {p q : α → Bool} (h : ∀ a, ¬(p a = true ∧ q a = true)) (as : List α) :
    (as.filter fun a => p a || q a).length = (as.filter p).length + (as.filter q).length := by
  induction as with
  | nil => rfl
  | cons a as ih =>
    have ha := h a
    by_cases hp : p a = true <;> by_cases hq : q a = true
    · exact absurd ⟨hp, hq⟩ ha
    all_goals simp [hp, hq, ih]; try omega

end

/-- Reports are counted among the diagnostics. -/
theorem length_filter_reports (ds : List Diagnostic) (begun : List Nat) (p : ErrorCode × Nat → Bool) :
    ((ds.filterMap (Diagnostic.report? begun)).filter p).length =
      ds.countP fun d => ((d.report? begun).map p).getD false := by
  rw [← List.countP_eq_length_filter, List.countP_filterMap]

theorem countP_repetition (ds : List Diagnostic) (begun : List Nat) {code : ErrorCode}
    (h : code.isRepetition = true) : (ds.countP fun d => d.code = code) =
      ((ds.filterMap (Diagnostic.report? begun)).filter fun e => e.1 = code).length := by
  rw [length_filter_reports]
  refine List.countP_congr fun d _ => ?_
  by_cases hcode : d.code = code
  · simp [Diagnostic.report?, hcode, h]
  · unfold Diagnostic.report?
    split <;> simp [hcode]

theorem countP_malformed (ds : List Diagnostic) (begun : List Nat) :
    (ds.countP fun d => d.code = .malformed ∧ d.offset ∈ begun) =
      ((ds.filterMap (Diagnostic.report? begun)).filter fun e => e.1 = .malformed).length := by
  rw [length_filter_reports]
  refine List.countP_congr fun d _ => ?_
  by_cases hcode : d.code = .malformed
  · by_cases hoffset : d.offset ∈ begun <;> simp [Diagnostic.report?, hcode, hoffset, ErrorCode.isRepetition]
  · unfold Diagnostic.report?
    split <;> simp [hcode]

/-- The keys of a module that meet a condition and are given again. -/
theorem length_filter_repeated (m : Module) (p : DeclarationKey → Bool) :
    ((repeatedKeys m.ownKeys (m.declared.flatMap DeclarationKind.keys)).filter p).length =
      surplus (m.ownKeys.filter p ++ m.declared.flatMap fun kind => kind.keys.filter p) := by
  have hnodup : m.ownKeys.Nodup := by cases m <;> simp [Module.ownKeys]
  rw [filter_repeatedKeys, length_repeatedKeys_eq_surplus (hnodup.filter p), List.filter_flatMap]

/-- How often a setting is given again. -/
theorem length_filter_setting (m : Module) (s : Setter) :
    ((repeatedKeys m.ownKeys (m.declared.flatMap DeclarationKind.keys)).filter fun k => k = .setting s).length =
      m.given s - 1 := by
  have hown : (m.ownKeys.filter fun k => k = .setting s) = [] := by cases m <;> rfl
  have hkeys (kind : DeclarationKind) : (kind.keys.filter fun k => k = .setting s) =
      if kind.setter? = some s then [.setting s] else [] := by
    cases hs : kind.setter? with
    | none => simp [DeclarationKind.keys, List.filter_map, Function.comp_def, hs]
    | some s' => by_cases h : s' = s <;> simp [DeclarationKind.keys, List.filter_map, Function.comp_def, hs, h]
  rw [length_filter_repeated, hown, List.nil_append, List.flatMap_congr fun kind _ => hkeys kind, flatMap_ite,
    surplus_replicate, Module.given]

/-- No setting has the error of another kind of keys. -/
theorem repetition_ne (code : ErrorCode) (h : ∀ s ∈ Setter.all, s.repetition ≠ code) (s : Setter) :
    s.repetition ≠ code := h s (by cases s <;> decide)

section

variable {m : ParsedModule}

/-- The errors of a kind are the keys of this kind that are given again. -/
theorem reported_eq (h : m.diagnostics.filterMap (Diagnostic.report? m.module.offsets) = m.module.dueReports)
    {code : ErrorCode} (hcode : code.isRepetition = true) : m.reported code =
      ((repeatedKeys m.module.ownKeys (m.module.declared.flatMap DeclarationKind.keys)).filter
        fun k => k.repetition = code).length := by
  have hmalformed : code ≠ .malformed := by
    rintro rfl
    cases hcode
  have hkeys : (m.module.prolog.declarations.flatMap fun d => d.kind.keys) =
      m.module.declared.flatMap DeclarationKind.keys := by
    rw [Module.declared, List.flatMap_map]
  rw [ParsedModule.reported, countP_repetition _ m.module.offsets hcode, h, Module.dueReports,
    length_filter_dueReports hmalformed, hkeys]

/-- Where the keys with an error are all of one form, the errors are the surplus of what they are made
of. -/
theorem reported_of_form {κ : Type} [DecidableEq κ] {code : ErrorCode} {kind? : DeclarationKind → Option κ}
    (h : m.diagnostics.filterMap (Diagnostic.report? m.module.offsets) = m.module.dueReports)
    (hcode : code.isRepetition = true) (key : κ → DeclarationKey) (own : List κ) (hkey : Function.Injective key)
    (hown : (m.module.ownKeys.filter fun k => k.repetition = code) = own.map key)
    (hkeys : ∀ kind : DeclarationKind,
      (kind.keys.filter fun k => k.repetition = code) = (kind? kind).toList.map key) :
    m.reported code = surplus (own ++ m.module.declared.filterMap kind?) := by
  have hall : (m.module.declared.flatMap fun kind => kind.keys.filter fun k => k.repetition = code) =
      (m.module.declared.filterMap kind?).map key := by
    rw [← flatMap_toList, List.map_flatMap]
    exact List.flatMap_congr fun kind _ => hkeys kind
  rw [reported_eq h hcode, length_filter_repeated, hown, hall, ← List.map_append, surplus_map hkey]

/-- What is recorded about the declarations of a module is counted in its tree. -/
theorem accounted_of_kept
    (h : m.diagnostics.filterMap (Diagnostic.report? m.module.offsets) = m.module.dueReports)
    (hordered : m.module.offsets.Pairwise (· < ·)) : m.Accounted where
  settings s he hf := by
    have hcode : s.repetition.isRepetition = true := (DeclarationKey.setting s).isRepetition_repetition
    have hsame (k : DeclarationKey) : decide (k.repetition = s.repetition) = decide (k = .setting s) := by
      cases k with
      | setting s' => cases s <;> cases s' <;> first | rfl | exact absurd rfl he | exact absurd rfl hf
      | _ => cases s <;> rfl
    rw [reported_eq h hcode, ← length_filter_setting]
    exact congrArg List.length (List.filter_congr fun k _ => hsame k)
  defaultNamespaces := by
    have hsame (k : DeclarationKey) : decide (k.repetition = .duplicateDefaultNamespace) =
        (decide (k = .setting .defaultElementNamespace) || decide (k = .setting .defaultFunctionNamespace)) := by
      cases k with
      | setting s => cases s <;> rfl
      | _ => rfl
    have hdisjoint (k : DeclarationKey) : ¬(decide (k = .setting .defaultElementNamespace) = true ∧
        decide (k = .setting .defaultFunctionNamespace) = true) := by
      rw [decide_eq_true_eq, decide_eq_true_eq]
      rintro ⟨rfl, ⟨⟩⟩
    rw [reported_eq h rfl, List.filter_congr fun k _ => hsame k, length_filter_or hdisjoint,
      length_filter_setting, length_filter_setting]
  functionKeys := by
    have hsetter := repetition_ne .duplicateFunction (by decide)
    refine reported_of_form h rfl (fun k => .functionName k.1 k.2) [] ?_ ?_ fun kind => ?_
    · rintro ⟨name, arity⟩ ⟨name', arity'⟩ ⟨⟩
      rfl
    · cases m.module <;> rfl
    · simp [DeclarationKind.keys, List.filter_map, Function.comp_def, DeclarationKey.repetition, hsetter]
  variableNames := by
    have hsetter := repetition_ne .duplicateVariable (by decide)
    refine reported_of_form h rfl .variableName [] (fun _ _ => DeclarationKey.variableName.inj) ?_ fun kind => ?_
    · cases m.module <;> rfl
    · simp [DeclarationKind.keys, List.filter_map, Function.comp_def, DeclarationKey.repetition, hsetter]
  qualifiers := by
    have hsetter := repetition_ne .duplicateNamespacePrefix (by decide)
    refine reported_of_form h rfl .qualifier _ (fun _ _ => DeclarationKey.qualifier.inj) ?_ fun kind => ?_
    · cases m.module <;> rfl
    · simp [DeclarationKind.keys, List.filter_map, Function.comp_def, DeclarationKey.repetition, hsetter]
  moduleNamespaces := by
    have hsetter := repetition_ne .duplicateModuleImport (by decide)
    refine reported_of_form h rfl .moduleNamespace [] (fun _ _ => DeclarationKey.moduleNamespace.inj) ?_
      fun kind => ?_
    · cases m.module <;> rfl
    · simp [DeclarationKind.keys, List.filter_map, Function.comp_def, DeclarationKey.repetition, hsetter]
  schemaNamespaces := by
    have hsetter := repetition_ne .duplicateSchemaImport (by decide)
    refine reported_of_form h rfl .schemaNamespace [] (fun _ _ => DeclarationKey.schemaNamespace.inj) ?_
      fun kind => ?_
    · cases m.module <;> rfl
    · simp [DeclarationKind.keys, List.filter_map, Function.comp_def, DeclarationKey.repetition, hsetter]
  formatNames := by
    have hsetter := repetition_ne .duplicateDecimalFormat (by decide)
    refine reported_of_form h rfl .decimalFormat [] (fun _ _ => DeclarationKey.decimalFormat.inj) ?_ fun kind => ?_
    · cases m.module <;> rfl
    · simp [DeclarationKind.keys, List.filter_map, Function.comp_def, DeclarationKey.repetition, hsetter]
  late := by
    rw [countP_malformed, h, Module.dueReports, length_malformed_dueReports]
    rfl
  kept := h
  ordered := hordered

end

/-- In front of the first character no key is known and nothing is reported. -/
theorem ledgered_ofText (text : String) (config : Config) :
    (ParserState.ofText text config).Ledgered (byteLength text.toList) 0 [] [] [] where
  behind := ⟨rfl, by
    rw [Nat.zero_add]
    exact byteLength_le_of_suffix (List.dropWhile_suffix _)⟩
  passed := nofun
  malformed := nofun
  known k := by
    rw [List.mem_nil_iff, iff_false, Bool.not_eq_true]
    cases k <;> rfl
  reports := rfl

end XQuerySyntax
