import Mathlib.Data.List.Forall2
import XQuerySyntax.Static.Context

/-! Contexts that agree. Bindings that are undone and made again may change their places in the table
of namespaces, which no lookup sees; two contexts that differ in nothing else agree. -/

namespace XQuerySyntax.StaticContext

variable {c c' c'' : StaticContext}

/-- The same context, whatever the order in which its namespaces are kept. -/
structure Agrees (c c' : StaticContext) : Prop where
  bindings : ∀ q, c'.bindings.get? q = c.bindings.get? q
  others : c' = { c with bindings := c'.bindings }

theorem Agrees.refl (c : StaticContext) : c.Agrees c := ⟨fun _ => rfl, rfl⟩

theorem Agrees.trans (h : c.Agrees c') (h' : c'.Agrees c'') : c.Agrees c'' where
  bindings q := (h'.bindings q).trans (h.bindings q)
  others := by rw [h'.others, h.others]

theorem Agrees.symm (h : c.Agrees c') : c'.Agrees c where
  bindings q := (h.bindings q).symm
  others := by rw [h.others]

theorem Agrees.exists_bindings (h : c.Agrees c') :
    ∃ b : Table String String, (∀ q, b.get? q = c.bindings.get? q) ∧
      c' = { c with bindings := b } :=
  ⟨_, h.bindings, h.others⟩

theorem Agrees.resolve? (h : c.Agrees c') (q : String) : c'.resolve? q = c.resolve? q :=
  congrArg _ (h.bindings q)

theorem Agrees.frames (h : c.Agrees c') : c'.frames = c.frames := by rw [h.others]

/-! ### Namespaces -/

/-- What a binding puts into the table. -/
def bound (b : Table String String) (qualifier uri : String) : Table String String :=
  if uri = "" ∧ qualifier ≠ "" then b.erase qualifier else b.put qualifier uri

theorem get?_bound (b : Table String String) (qualifier uri q : String) :
    (bound b qualifier uri).get? q =
      if qualifier = q then (if uri = "" ∧ qualifier ≠ "" then none else some uri)
      else b.get? q := by
  unfold bound
  split
  · exact Table.get?_erase b qualifier q
  · exact Table.get?_put b qualifier uri q

theorem bind_eq (c : StaticContext) (qualifier uri : String) :
    c.bind qualifier uri = { c with
      bindings := bound c.bindings qualifier uri
      frames := match c.frames with
        | [] => []
        | frame :: frames => ((qualifier, c.bindings.get? qualifier) :: frame) :: frames } := by
  unfold bind
  cases c.frames <;> rfl

theorem Agrees.bind (h : c.Agrees c') (qualifier uri : String) :
    (c.bind qualifier uri).Agrees (c'.bind qualifier uri) := by
  obtain ⟨b, hb, rfl⟩ := h.exists_bindings
  rw [bind_eq, bind_eq]
  refine ⟨fun q => ?_, ?_⟩
  · change (bound b qualifier uri).get? q = (bound c.bindings qualifier uri).get? q
    rw [get?_bound, get?_bound, hb]
  · dsimp only
    rw [hb]

/-- Undoing the bindings of a frame, latest first. -/
def undone (b : Table String String) (frame : List (String × Option String)) :
    Table String String :=
  frame.foldl (fun t p => t.set p.1 p.2) b

theorem get?_undone {b b' : Table String String} (h : ∀ q, b'.get? q = b.get? q)
    (frame : List (String × Option String)) (q : String) :
    (undone b' frame).get? q = (undone b frame).get? q := by
  induction frame generalizing b b' with
  | nil => exact h q
  | cons p frame ih =>
    refine ih fun q => ?_
    rw [Table.get?_set, Table.get?_set, h]

theorem Agrees.popFrame (h : c.Agrees c') : c.popFrame.Agrees c'.popFrame := by
  obtain ⟨b, hb, rfl⟩ := h.exists_bindings
  cases c with | mk bindings frames
  cases frames with
  | nil => exact ⟨hb, rfl⟩
  | cons frame frames => exact ⟨get?_undone hb frame, rfl⟩

/-- Inside a frame a binding leaves no trace behind the frame. -/
theorem popFrame_bind (c : StaticContext) (qualifier uri : String) (h : c.frames ≠ []) :
    c.popFrame.Agrees (c.bind qualifier uri).popFrame := by
  obtain ⟨frame, frames, hf⟩ := List.exists_cons_of_ne_nil h
  rw [bind_eq]
  unfold popFrame
  simp only [hf]
  refine ⟨fun q => ?_, rfl⟩
  refine get?_undone (fun q => ?_) frame q
  rw [Table.get?_set, get?_bound]
  by_cases hq : qualifier = q
  · rw [if_pos hq, hq]
  · rw [if_neg hq, if_neg hq]

theorem frames_bind_ne_nil (qualifier uri : String) (h : c.frames ≠ []) :
    (c.bind qualifier uri).frames ≠ [] := by
  obtain ⟨frame, frames, hf⟩ := List.exists_cons_of_ne_nil h
  rw [bind_eq]
  simp only [hf]
  exact List.cons_ne_nil _ _

/-! ### Frames that undo alike

The bindings of a frame may have been made in another order. What the frames keep differs then, but not
what they undo. -/

/-- Tables in which every key has the same value. -/
def SameBindings (b b' : Table String String) : Prop := ∀ q, b'.get? q = b.get? q

/-- What frames undo is the same. -/
def UndoAlike (frame frame' : List (String × Option String)) : Prop :=
  ∀ b b', SameBindings b b' → SameBindings (undone b frame) (undone b' frame')

/-- Contexts that differ at most in the order of their bindings, those kept by open frames included. -/
structure Alike (c c' : StaticContext) : Prop where
  bindings : SameBindings c.bindings c'.bindings
  frames : List.Forall₂ UndoAlike c.frames c'.frames
  others : c' = { c with bindings := c'.bindings, frames := c'.frames }

theorem undoAlike_refl (frame : List (String × Option String)) : UndoAlike frame frame :=
  fun _ _ h => get?_undone h frame

theorem Agrees.alike (h : c.Agrees c') : c.Alike c' where
  bindings := h.bindings
  frames := by
    rw [h.frames]
    exact List.forall₂_same.2 fun frame _ => undoAlike_refl frame
  others := by rw [h.others]

theorem Alike.refl (c : StaticContext) : c.Alike c := (Agrees.refl c).alike

theorem UndoAlike.symm {frame frame' : List (String × Option String)} (h : UndoAlike frame frame') :
    UndoAlike frame' frame := fun b b' hb q => (h b' b (fun q => (hb q).symm) q).symm

theorem UndoAlike.trans {frame frame' frame'' : List (String × Option String)}
    (h : UndoAlike frame frame') (h' : UndoAlike frame' frame'') : UndoAlike frame frame'' :=
  fun b b' hb q => (h' b' b' (fun _ => rfl) q).trans (h b b' hb q)

theorem undoAlike_trans {frames frames' frames'' : List (List (String × Option String))}
    (h : List.Forall₂ UndoAlike frames frames') (h' : List.Forall₂ UndoAlike frames' frames'') :
    List.Forall₂ UndoAlike frames frames'' := by
  induction h generalizing frames'' with
  | nil => exact h'
  | cons hframe _ ih =>
    cases h' with
    | cons hframe' hrest' => exact .cons (hframe.trans hframe') (ih hrest')

theorem Alike.symm (h : c.Alike c') : c'.Alike c where
  bindings q := (h.bindings q).symm
  frames := h.frames.flip.imp fun _ _ hframe => UndoAlike.symm hframe
  others := by rw [h.others]

theorem Alike.trans (h : c.Alike c') (h' : c'.Alike c'') : c.Alike c'' where
  bindings q := (h'.bindings q).trans (h.bindings q)
  frames := undoAlike_trans h.frames h'.frames
  others := by rw [h'.others, h.others]

theorem Alike.resolve? (h : c.Alike c') (q : String) : c'.resolve? q = c.resolve? q :=
  congrArg _ (h.bindings q)

theorem Alike.elementNamespace? (h : c.Alike c') : c'.elementNamespace? = c.elementNamespace? :=
  h.resolve? ""

theorem Alike.functionNamespace? (h : c.Alike c') : c'.functionNamespace? = c.functionNamespace? := by
  rw [h.others]
  rfl

theorem Alike.boundarySpace (h : c.Alike c') : c'.boundarySpace = c.boundarySpace := by rw [h.others]

theorem sameBindings_bound {b b' : Table String String} (h : SameBindings b b') (qualifier uri : String) :
    SameBindings (bound b qualifier uri) (bound b' qualifier uri) := by
  intro q
  rw [get?_bound, get?_bound, h q]

theorem Alike.bind (h : c.Alike c') (qualifier uri : String) :
    (c.bind qualifier uri).Alike (c'.bind qualifier uri) := by
  have hbindings := sameBindings_bound h.bindings qualifier uri
  have hold := h.bindings qualifier
  have hframes := h.frames
  have hothers := h.others
  rw [bind_eq, bind_eq]
  obtain ⟨bindings, frames⟩ := c
  obtain ⟨bindings', frames'⟩ := c'
  cases hothers
  cases hframes with
  | nil => exact ⟨hbindings, .nil, rfl⟩
  | cons hframe hrest =>
    refine ⟨hbindings, .cons (fun b b' hb => ?_) hrest, rfl⟩
    refine hframe _ _ fun q => ?_
    rw [Table.get?_set, Table.get?_set, hb q]
    exact hold ▸ rfl

theorem Alike.pushFrame (h : c.Alike c') : c.pushFrame.Alike c'.pushFrame where
  bindings := h.bindings
  frames := .cons (undoAlike_refl []) h.frames
  others := by
    conv_lhs => rw [h.others]
    rfl

theorem Alike.popFrame (h : c.Alike c') : c.popFrame.Alike c'.popFrame := by
  have hframes := h.frames
  have hothers := h.others
  obtain ⟨bindings, frames⟩ := c
  obtain ⟨bindings', frames'⟩ := c'
  cases hframes with
  | nil => exact h
  | cons hframe hrest =>
    refine ⟨hframe _ _ h.bindings, hrest, ?_⟩
    cases hothers
    rfl

theorem bound_comm (b : Table String String) {q q' : String} (hne : q ≠ q') (uri uri' : String) :
    SameBindings (bound (bound b q uri) q' uri') (bound (bound b q' uri') q uri) := by
  intro k
  simp only [get?_bound]
  by_cases hq : q = k
  · have hq' : q' ≠ k := fun h => hne (hq.trans h.symm)
    rw [if_pos hq, if_neg hq', if_pos hq]
  · rw [if_neg hq, if_neg hq]

/-- Two qualifiers may be bound in either order. -/
theorem bind_comm (c : StaticContext) {q q' : String} (hne : q ≠ q') (uri uri' : String) :
    ((c.bind q uri).bind q' uri').Alike ((c.bind q' uri').bind q uri) := by
  have hold : (bound c.bindings q uri).get? q' = c.bindings.get? q' := by
    rw [get?_bound, if_neg hne]
  have hold' : (bound c.bindings q' uri').get? q = c.bindings.get? q := by
    rw [get?_bound, if_neg hne.symm]
  simp only [bind_eq]
  refine ⟨bound_comm c.bindings hne uri uri', ?_, rfl⟩
  cases c.frames with
  | nil => exact .nil
  | cons frame frames =>
    refine .cons (fun b b' hb => ?_) (List.forall₂_same.2 fun frame _ => undoAlike_refl frame)
    rw [hold, hold']
    -- What the two bindings replaced is put back in either order.
    refine get?_undone (fun k => ?_) frame
    simp only [Table.get?_set, hb k]
    by_cases hq : q = k
    · have hq' : q' ≠ k := fun h => hne (hq.trans h.symm)
      rw [if_pos hq, if_neg hq', if_pos hq]
    · rw [if_neg hq, if_neg hq]

/-! ### Settings and declarations -/

theorem claim_eq (c : StaticContext) (s : Setter) : (c.claim s).2 =
    { c with declared := if c.isDeclared s then c.declared else c.declared ++ [s] } := by
  unfold claim
  split <;> rfl

/-- Gives a key a value unless it has one. -/
def putNew {κ ν : Type} [DecidableEq κ] (t : Table κ ν) (k : κ) (v : ν) : Table κ ν :=
  if t.has k then t else t.put k v

theorem addDecimalFormat_eq (c : StaticContext) (name : Option ExpandedName)
    (format : DecimalFormat) : (c.addDecimalFormat name format).2 =
      { c with decimalFormats := putNew c.decimalFormats name format } := by
  unfold addDecimalFormat putNew
  split <;> rfl

theorem addModuleImport_eq (c : StaticContext) (uri : String) (locations : List String) :
    (c.addModuleImport uri locations).2 =
      { c with moduleImports := putNew c.moduleImports uri locations } := by
  unfold addModuleImport putNew
  split <;> rfl

theorem addSchemaImport_eq (c : StaticContext) (uri : String) (locations : List String) :
    (c.addSchemaImport uri locations).2 =
      { c with schemaImports := putNew c.schemaImports uri locations } := by
  unfold addSchemaImport putNew
  split <;> rfl

/-- Adds an element to a list unless some element meets the condition. -/
def addNew {α : Type} (p : α → Bool) (xs : List α) (x : α) : List α :=
  if (xs.find? p).isSome then xs else xs ++ [x]

/-- Whether a variable has the name. -/
def variableNamed (name : ExpandedName) (v : VariableSignature) : Bool := v.name.expanded == name

/-- Whether a function has the name and the number of parameters. -/
def functionNamed (name : ExpandedName) (arity : Nat) (f : FunctionSignature) : Bool :=
  f.name.expanded == name && f.arity == arity

theorem declareVariable_eq (c : StaticContext) (v : VariableSignature) : (c.declareVariable v).2 =
    { c with variableSignatures :=
        addNew (variableNamed v.name.expanded) c.variableSignatures v } := by
  change (if (c.variableSignatures.find? (variableNamed v.name.expanded)).isSome then (false, c)
    else (true, { c with variableSignatures := c.variableSignatures ++ [v] })).2 = _
  unfold addNew
  split <;> rfl

theorem declareFunction_eq (c : StaticContext) (f : FunctionSignature) : (c.declareFunction f).2 =
    { c with functionSignatures :=
        addNew (functionNamed f.name.expanded f.arity) c.functionSignatures f } := by
  change (if (c.functionSignatures.find? (functionNamed f.name.expanded f.arity)).isSome then
    (false, c) else (true, { c with functionSignatures := c.functionSignatures ++ [f] })).2 = _
  unfold addNew
  split <;> rfl

end XQuerySyntax.StaticContext
