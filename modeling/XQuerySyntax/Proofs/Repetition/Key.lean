import Mathlib.Data.Finset.Card
import Mathlib.Data.Finset.Dedup
import Mathlib.Data.Finset.Image
import XQuerySyntax.Grammar.Declaration
import XQuerySyntax.Proofs.Static.Declare
import XQuerySyntax.Proofs.Tree.Contents

/-! What a module may declare once. Every declaration has the keys under which it is known; a key that is
known before is given again, and so are the errors of a prolog: one for each key that is given again, and
one for each declaration that comes too late. -/

namespace XQuerySyntax

/-- What may be declared once. -/
inductive DeclarationKey where
  | setting (setter : Setter)
  | qualifier (qualifier : String)
  | decimalFormat (name : Option ExpandedName)
  | variableName (name : ExpandedName)
  | functionName (name : ExpandedName) (arity : Nat)
  | moduleNamespace (uri : String)
  | schemaNamespace (uri : String)
  deriving DecidableEq

/-- The error of a setting that is given again. The two default namespaces have one error. -/
def Setter.repetition : Setter → ErrorCode
  | boundarySpace => .duplicateBoundarySpace
  | defaultCollation => .duplicateDefaultCollation
  | baseUri => .duplicateBaseUri
  | construction => .duplicateConstruction
  | ordering => .duplicateOrdering
  | emptyOrder => .duplicateEmptyOrder
  | copyNamespaces => .duplicateCopyNamespaces
  | defaultElementNamespace => .duplicateDefaultNamespace
  | defaultFunctionNamespace => .duplicateDefaultNamespace
  | contextItem => .duplicateContextItem
  | revalidation => .duplicateRevalidation

/-- The error of a key that is given again. -/
def DeclarationKey.repetition : DeclarationKey → ErrorCode
  | setting s => s.repetition
  | qualifier _ => .duplicateNamespacePrefix
  | decimalFormat _ => .duplicateDecimalFormat
  | variableName _ => .duplicateVariable
  | functionName _ _ => .duplicateFunction
  | moduleNamespace _ => .duplicateModuleImport
  | schemaNamespace _ => .duplicateSchemaImport

/-- Whether the error is about a key that is given again. -/
def ErrorCode.isRepetition : ErrorCode → Bool
  | duplicateBoundarySpace | duplicateDefaultCollation | duplicateBaseUri | duplicateConstruction
  | duplicateOrdering | duplicateEmptyOrder | duplicateCopyNamespaces | duplicateDefaultNamespace
  | duplicateContextItem | duplicateRevalidation | duplicateNamespacePrefix | duplicateDecimalFormat
  | duplicateVariable | duplicateFunction | duplicateModuleImport | duplicateSchemaImport => true
  | _ => false

theorem DeclarationKey.isRepetition_repetition (k : DeclarationKey) : k.repetition.isRepetition = true := by
  cases k with
  | setting s => cases s <;> rfl
  | _ => rfl

namespace DeclarationKind

/-- The qualifier that the prolog binds with the declaration. -/
def qualifier? : DeclarationKind → Option String
  | namespaceDecl qualifier _ => some qualifier
  | schemaImport s => s.qualifier
  | moduleImport m => m.qualifier
  | _ => none

/-- The decimal format that is declared. -/
def formatName? : DeclarationKind → Option (Option ExpandedName)
  | decimalFormat name _ => some (name.map QName.expanded)
  | _ => none

/-- The variable that is declared. -/
def variableName? : DeclarationKind → Option ExpandedName
  | variableDecl d => some d.name.expanded
  | _ => none

/-- The name of the function that is declared, and the number of its parameters. -/
def functionKey? : DeclarationKind → Option (ExpandedName × Nat)
  | functionDecl d => some (d.name.expanded, d.arity)
  | _ => none

/-- The namespace of the module that is imported. -/
def moduleNamespace? : DeclarationKind → Option String
  | moduleImport m => some m.targetNamespace
  | _ => none

/-- The namespace of the schema that is imported. -/
def schemaNamespace? : DeclarationKind → Option String
  | schemaImport s => some s.targetNamespace
  | _ => none

/-- The keys of a declaration, in the order in which they are looked up. -/
def keys (kind : DeclarationKind) : List DeclarationKey :=
  kind.qualifier?.toList.map .qualifier ++ kind.setter?.toList.map .setting ++
    kind.formatName?.toList.map .decimalFormat ++ kind.variableName?.toList.map .variableName ++
    kind.functionKey?.toList.map (fun k => .functionName k.1 k.2) ++
    kind.moduleNamespace?.toList.map .moduleNamespace ++ kind.schemaNamespace?.toList.map .schemaNamespace

theorem keys_moduleImport (m : ModuleImport) : (moduleImport m).keys =
    m.qualifier.toList.map .qualifier ++ [DeclarationKey.moduleNamespace m.targetNamespace] := by
  simp [keys, qualifier?, setter?, formatName?, variableName?, functionKey?, moduleNamespace?, schemaNamespace?]

theorem keys_schemaImport (s : SchemaImport) : (schemaImport s).keys = s.qualifier.toList.map .qualifier ++
    (if s.defaultElementNamespace then [DeclarationKey.setting .defaultElementNamespace] else []) ++
      [DeclarationKey.schemaNamespace s.targetNamespace] := by
  cases hs : s.defaultElementNamespace <;>
    simp [keys, qualifier?, setter?, formatName?, variableName?, functionKey?, moduleNamespace?,
      schemaNamespace?, hs]

/-- The part of a prolog that the declaration belongs to. -/
def part : DeclarationKind → Grammar.Section
  | contextItem .. | variableDecl _ | functionDecl _ | option .. => .declarations
  | _ => .setup

end DeclarationKind

/-! ### Keys that are given again -/

section

variable {κ δ : Type} [DecidableEq κ]

/-- The keys that are known when they are given, each as often as that happens. -/
def repeatedKeys (known : List κ) : List κ → List κ
  | [] => []
  | k :: ks => if k ∈ known then k :: repeatedKeys (k :: known) ks else repeatedKeys (k :: known) ks

/-- How many keys of a list are not the first of their kind. -/
def surplus (ks : List κ) : Nat := ks.length - ks.toFinset.card

theorem repeatedKeys_append (known ks ks' : List κ) :
    repeatedKeys known (ks ++ ks') = repeatedKeys known ks ++ repeatedKeys (ks.reverse ++ known) ks' := by
  induction ks generalizing known with
  | nil => rfl
  | cons k ks ih =>
    by_cases hk : k ∈ known <;> simp [repeatedKeys, hk, ih]

theorem filter_repeatedKeys (p : κ → Bool) (known ks : List κ) :
    (repeatedKeys known ks).filter p = repeatedKeys (known.filter p) (ks.filter p) := by
  induction ks generalizing known with
  | nil => rfl
  | cons k ks ih => by_cases hp : p k = true <;> by_cases hk : k ∈ known <;> simp [repeatedKeys, hp, hk, ih]

theorem length_repeatedKeys (known ks : List κ) :
    (repeatedKeys known ks).length + (ks.toFinset \ known.toFinset).card = ks.length := by
  induction ks generalizing known with
  | nil => simp [repeatedKeys]
  | cons k ks ih =>
    have ih := ih (k :: known)
    by_cases hk : k ∈ known
    · have hsame : (k :: ks).toFinset \ known.toFinset = ks.toFinset \ (k :: known).toFinset := by
        ext x
        simp only [List.toFinset_cons, Finset.mem_sdiff, Finset.mem_insert, List.mem_toFinset, not_or]
        grind
      rw [repeatedKeys, if_pos hk, hsame, List.length_cons, List.length_cons]
      omega
    · have hmore : (k :: ks).toFinset \ known.toFinset = insert k (ks.toFinset \ (k :: known).toFinset) := by
        ext x
        simp only [List.toFinset_cons, Finset.mem_sdiff, Finset.mem_insert, List.mem_toFinset, not_or]
        grind
      have hnew : k ∉ ks.toFinset \ (k :: known).toFinset := by simp
      rw [repeatedKeys, if_neg hk, hmore, Finset.card_insert_of_notMem hnew, List.length_cons]
      omega

/-- The keys that are given again are those that are not the first, among the ones known before too. -/
theorem length_repeatedKeys_eq_surplus {known : List κ} (h : known.Nodup) (ks : List κ) :
    (repeatedKeys known ks).length = surplus (known ++ ks) := by
  have hlength := length_repeatedKeys known ks
  have hunion : (known ++ ks).toFinset = known.toFinset ∪ (ks.toFinset \ known.toFinset) := by
    rw [List.toFinset_append, Finset.union_sdiff_self_eq_union]
  have hcard : (known ++ ks).toFinset.card = known.length + (ks.toFinset \ known.toFinset).card := by
    rw [hunion, Finset.card_union_of_disjoint Finset.disjoint_sdiff, List.toFinset_card_of_nodup h]
  rw [surplus, hcard, List.length_append]
  omega

/-- Nothing is lost where keys are written in another way. -/
theorem surplus_map {κ' : Type} [DecidableEq κ'] {f : κ → κ'} (hf : Function.Injective f) (ks : List κ) :
    surplus (ks.map f) = surplus ks := by
  have himage : (ks.map f).toFinset = ks.toFinset.image f := by
    ext x
    simp
  rw [surplus, surplus, himage, Finset.card_image_of_injective _ hf, List.length_map]

/-- Of keys that are all the same, all but the first are given again. -/
theorem surplus_replicate (n : Nat) (k : κ) : surplus (List.replicate n k) = n - 1 := by
  cases n with
  | zero => rfl
  | succ n => simp [surplus, List.toFinset_replicate_of_ne_zero]

end

/-! ### What declarations call for -/

/-- The errors that declarations call for, with their places: one for each key that is known before, and
one for what belongs to the first part of a prolog and comes in the second. -/
def dueReports (known : List DeclarationKey) (part : Grammar.Section) : List Declaration → List (ErrorCode × Nat)
  | [] => []
  | d :: ds =>
    (repeatedKeys known d.kind.keys).map (fun k => (k.repetition, d.offset)) ++
      (if part = .declarations ∧ d.kind.part = .setup then [(.malformed, d.offset)] else []) ++
      dueReports (d.kind.keys.reverse ++ known)
        (if d.kind.part = .declarations then .declarations else part) ds

/-- The keys of a module in front of its declarations: the qualifier of a library. -/
def Module.ownKeys : Module → List DeclarationKey
  | main .. => []
  | library qualifier _ _ => [.qualifier qualifier]

/-- The errors that the declarations of a module call for, with their places. -/
def Module.dueReports (m : Module) : List (ErrorCode × Nat) :=
  XQuerySyntax.dueReports m.ownKeys .setup m.prolog.declarations

/-- Where the declarations of a module begin. -/
def Module.offsets (m : Module) : List Nat := m.prolog.declarations.map Declaration.offset

variable {known : List DeclarationKey} {part : Grammar.Section} {ds : List Declaration}

theorem length_filter_dueReports {code : ErrorCode} (h : code ≠ .malformed) :
    ((dueReports known part ds).filter fun e => e.1 = code).length =
      ((repeatedKeys known (ds.flatMap fun d => d.kind.keys)).filter fun k => k.repetition = code).length := by
  induction ds generalizing known part with
  | nil => rfl
  | cons d ds ih =>
    have hlate : ((if part = .declarations ∧ d.kind.part = .setup then
        [(ErrorCode.malformed, d.offset)] else []).filter fun e => e.1 = code) = [] := by
      split <;> simp [Ne.symm h]
    have hkeys (ks : List DeclarationKey) : ((ks.map fun k => (k.repetition, d.offset)).filter
        fun e => e.1 = code).length = (ks.filter fun k => k.repetition = code).length := by
      rw [List.filter_map, List.length_map]
      rfl
    rw [dueReports, List.filter_append, List.filter_append, hlate, List.append_nil, List.length_append, hkeys,
      ih, List.flatMap_cons, repeatedKeys_append, List.filter_append, List.length_append]

/-- The declarations of the first part that come in the second. -/
def lateSetups (part : Grammar.Section) (kinds : List DeclarationKind) : Nat :=
  match part with
  | .setup => (kinds.dropWhile fun kind => kind.part = .setup).countP fun kind => kind.part = .setup
  | .declarations => kinds.countP fun kind => kind.part = .setup

theorem length_malformed_dueReports :
    ((dueReports known part ds).filter fun e => e.1 = .malformed).length =
      lateSetups part (ds.map Declaration.kind) := by
  induction ds generalizing known part with
  | nil => cases part <;> rfl
  | cons d ds ih =>
    have hkeys : (((repeatedKeys known d.kind.keys).map fun k => (k.repetition, d.offset)).filter
        fun e => e.1 = .malformed) = [] := by
      refine List.filter_eq_nil_iff.2 fun e he => ?_
      obtain ⟨k, -, rfl⟩ := List.mem_map.1 he
      have hcode := k.isRepetition_repetition
      rw [decide_eq_true_eq]
      intro (hk : k.repetition = .malformed)
      rw [hk] at hcode
      cases hcode
    rw [dueReports, List.filter_append, List.filter_append, hkeys, List.nil_append, List.length_append, ih,
      List.map_cons]
    cases hd : d.kind.part <;> cases part <;> simp [lateSetups, hd, Nat.add_comm]

end XQuerySyntax
