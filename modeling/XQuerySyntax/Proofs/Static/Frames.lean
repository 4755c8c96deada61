import XQuerySyntax.Proofs.Static.Agrees

/-! Frames of namespaces nest. Whatever is bound while a frame is open, and whatever frames are opened and
closed inside it, is undone when it is closed: there is one table for all frames, and what each frame keeps
undoes its own bindings only. -/

namespace XQuerySyntax

open StaticContext

/-! ### Steps -/

/-- A change of the namespaces of a context. -/
inductive FrameStep where
  | push
  | bind (qualifier uri : String)
  | pop

namespace FrameStep

/-- The context behind a step. -/
def apply (c : StaticContext) : FrameStep → StaticContext
  | push => c.pushFrame
  | bind qualifier uri => c.bind qualifier uri
  | pop => c.popFrame

/-- The context behind steps. -/
def run (c : StaticContext) (steps : List FrameStep) : StaticContext := steps.foldl apply c

/-- The number of frames that are open behind steps, given the number of those that the steps may close:
nothing if they close one more. -/
def openBehind : Nat → List FrameStep → Option Nat
  | n, [] => some n
  | n, push :: steps => openBehind (n + 1) steps
  | n, bind _ _ :: steps => openBehind n steps
  | 0, pop :: _ => none
  | n + 1, pop :: steps => openBehind n steps

/-- The steps close what they open, and nothing else. -/
def Balanced (steps : List FrameStep) : Prop := openBehind 0 steps = some 0

end FrameStep

namespace StaticContext

variable {c s s' : StaticContext} {n : Nat}

/-- Closes so many frames. -/
def popFrames : Nat → StaticContext → StaticContext
  | 0, c => c
  | n + 1, c => popFrames n c.popFrame

theorem Agrees.popFrames (h : s.Agrees s') (n : Nat) :
    (StaticContext.popFrames n s).Agrees (StaticContext.popFrames n s') := by
  induction n generalizing s s' with
  | zero => exact h
  | succ n ih => exact ih h.popFrame

theorem length_frames_popFrame (c : StaticContext) :
    c.popFrame.frames.length = c.frames.length - 1 := by
  cases c with | mk bindings frames
  cases frames <;> rfl

theorem length_frames_bind (c : StaticContext) (qualifier uri : String) :
    (c.bind qualifier uri).frames.length = c.frames.length := by
  rw [bind_eq]
  cases c.frames <;> rfl

theorem popFrame_of_frames_eq_nil (h : c.frames = []) : c.popFrame = c := by
  unfold popFrame
  rw [h]

/-- At least so many frames are open, and closing them leads back to a context. -/
structure Unwinds (c : StaticContext) (n : Nat) (s : StaticContext) : Prop where
  open_frames : n ≤ s.frames.length
  agrees : c.Agrees (s.popFrames n)

theorem Unwinds.push (h : c.Unwinds n s) : c.Unwinds (n + 1) s.pushFrame where
  open_frames := Nat.succ_le_succ h.open_frames
  agrees := h.agrees

theorem Unwinds.pop (h : c.Unwinds (n + 1) s) : c.Unwinds n s.popFrame where
  open_frames := by
    rw [length_frames_popFrame]
    exact Nat.le_sub_one_of_lt h.open_frames
  agrees := h.agrees

theorem Unwinds.bind (h : c.Unwinds (n + 1) s) (qualifier uri : String) :
    c.Unwinds (n + 1) (s.bind qualifier uri) where
  open_frames := by
    rw [length_frames_bind]
    exact h.open_frames
  agrees := by
    have hsome : s.frames ≠ [] :=
      List.ne_nil_of_length_pos (Nat.lt_of_lt_of_le (Nat.succ_pos n) h.open_frames)
    have hbind : s.popFrame.Agrees (s.bind qualifier uri).popFrame :=
      popFrame_bind s qualifier uri hsome
    exact h.agrees.trans (hbind.popFrames n)

/-- Steps that leave a frame alone leave it as it was. The induction is on the steps; the number of frames
that are open above the first one is that of the count. -/
theorem Unwinds.run {steps : List FrameStep} {m : Nat} (h : c.Unwinds (n + 1) s)
    (hsteps : FrameStep.openBehind n steps = some m) :
    c.Unwinds (m + 1) (FrameStep.run s steps) := by
  induction steps generalizing n s with
  | nil =>
    obtain rfl := Option.some.inj hsteps
    exact h
  | cons step steps ih =>
    cases step with
    | push => exact ih h.push hsteps
    | bind qualifier uri => exact ih (h.bind qualifier uri) hsteps
    | pop =>
      cases n with
      | zero => cases hsteps
      | succ n => exact ih h.pop hsteps

end StaticContext

/-- A frame in which steps close what they open leaves no trace in the context: every qualifier has the
namespace that it had before or is unbound as it was, the frames around it are as before, and so is
everything else. Where no frame is open, closing one changes nothing. -/
theorem frame_restores_namespaces (c : StaticContext) :
    (∀ steps, FrameStep.Balanced steps → c.Agrees (FrameStep.run c.pushFrame steps).popFrame) ∧
      (c.frames = [] → c.popFrame = c) := by
  constructor
  · intro steps hsteps
    have hstart : c.Unwinds 1 c.pushFrame := ⟨Nat.succ_pos _, .refl c⟩
    exact (hstart.run hsteps).agrees
  · exact popFrame_of_frames_eq_nil

/-- A qualifier that is bound twice, taken out of scope inside another frame and bound again, beside an
empty default namespace. -/
theorem rebound_qualifier_is_restored :
    FrameStep.Balanced [.bind "xs" "u", .push, .bind "xs" "", .bind "" "", .pop, .bind "q" "v",
        .bind "q" ""] ∧
      (StaticContext.ofConfig .standard).frames = [] ∧
      (StaticContext.ofConfig .standard).Agrees
        (FrameStep.run (StaticContext.ofConfig .standard).pushFrame [.bind "xs" "u", .push,
          .bind "xs" "", .bind "" "", .pop, .bind "q" "v", .bind "q" ""]).popFrame ∧
      (StaticContext.ofConfig .standard).popFrame = .ofConfig .standard := by
  have hbalanced : FrameStep.Balanced [.bind "xs" "u", .push, .bind "xs" "", .bind "" "", .pop,
      .bind "q" "v", .bind "q" ""] := rfl
  obtain ⟨hrestored, hpop⟩ := frame_restores_namespaces (.ofConfig .standard)
  exact ⟨hbalanced, rfl, hrestored _ hbalanced, hpop rfl⟩

end XQuerySyntax
