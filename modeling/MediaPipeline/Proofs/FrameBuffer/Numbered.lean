import MediaPipeline.Proofs.FrameBuffer.Edits
import MediaPipeline.Proofs.FrameBuffer.Mapping

/-!
# Buffers of numbered frames

A buffer sees only the timing of its frames, so numbers that are attached to the frames do not
change what it does: stripping the numbers commutes with every edit. A buffer of numbered frames
thus tells where the frames of the plain buffer come from.
-/

namespace MediaPipeline

variable {F T : Type} [Frame F T] [MediaTime T]

omit [MediaTime T] in
theorem Numbered.keepsTiming : Frame.KeepsTiming (Numbered.frame : Numbered F → F) where
  pts _ := rfl
  dts _ := rfl
  duration _ := rfl
  isKeyFrame _ := rfl

/-- The run of the same frames without their numbers. -/
def Run.strip (r : Run (Numbered F) T) : Run F T := ⟨r.frames.map Numbered.frame, r.start, r.stop⟩

namespace FrameBuffer

def strip (b : FrameBuffer (Numbered F) T) : FrameBuffer F T := ⟨b.order, b.runs.map Run.strip⟩

end FrameBuffer

/-- The edit of a buffer of other frames that correspond to these. -/
def BufferEdit.map {F G T : Type} (g : F → G) : BufferEdit F T → BufferEdit G T
  | .add f => .add (g f)
  | .remove start stop => .remove start stop
  | .clear => .clear

namespace FrameBuffer

/-- Numbering the frames that are added gives the same buffer, with numbers. -/
theorem strip_edit (b : FrameBuffer (Numbered F) T) (n : Nat) (e : BufferEdit F T) :
    (b.edit (e.map (Numbered.mk n))).strip = b.strip.edit e := by
  cases e with
  | add f => exact Numbered.keepsTiming.map_add b _
  | remove start stop => exact Numbered.keepsTiming.map_remove b start stop
  | clear => rfl

theorem strip_editAll (b : FrameBuffer (Numbered F) T) (n : Nat) (es : List (BufferEdit F T)) :
    (b.editAll (es.map (.map (Numbered.mk n)))).strip = b.strip.editAll es := by
  induction es generalizing b with
  | nil => rfl
  | cons e es ih =>
      simp only [List.map_cons, editAll, List.foldl_cons] at ih ⊢
      rw [ih, strip_edit]

/-- The buffer of the same frames, all with the number `n`. -/
def number (b : FrameBuffer F T) (n : Nat) : FrameBuffer (Numbered F) T :=
  ⟨b.order, b.runs.map fun r => ⟨r.frames.map (Numbered.mk n), r.start, r.stop⟩⟩

omit [Frame F T] [MediaTime T] in
theorem strip_number (b : FrameBuffer F T) (n : Nat) : (b.number n).strip = b := by
  simp [number, strip, Run.strip, Function.comp_def]

end FrameBuffer

end MediaPipeline
