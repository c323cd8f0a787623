import Mathlib.Data.List.InsertIdx
import MediaPipeline.Proofs.FrameBuffer.Removing

/-!
# Edits of a frame buffer

The changes that can be made to a buffer, as data, so that histories of a buffer are lists.
-/

namespace MediaPipeline

inductive BufferEdit (F T : Type) where
  | add (f : F)
  | remove (start stop : T)
  | clear

namespace FrameBuffer

variable {F T : Type} [Frame F T] [MediaTime T]

def edit (b : FrameBuffer F T) : BufferEdit F T → FrameBuffer F T
  | .add f => b.add f
  | .remove start stop => b.remove start stop
  | .clear => b.clear

def editAll (b : FrameBuffer F T) (es : List (BufferEdit F T)) : FrameBuffer F T := es.foldl edit b

variable {b : FrameBuffer F T} {e : BufferEdit F T} {es : List (BufferEdit F T)} {f g : F}

@[simp] theorem editAll_nil : b.editAll [] = b := rfl

@[simp] theorem editAll_concat : b.editAll (es ++ [e]) = (b.editAll es).edit e := by
  simp [editAll]

theorem editAll_map_add (fs : List F) : b.editAll (fs.map .add) = b.addAll fs := by
  simp [editAll, addAll, List.foldl_map, edit]

/-! ## Where frames come from -/

theorem mem_insertFrame {order : FrameOrder} {fs : List F}
    (hg : g ∈ Run.insertFrame order fs f) : g = f ∨ g ∈ fs := by
  simp only [Run.insertFrame] at hg
  split_ifs at hg
  · exact (List.mem_or_eq_of_mem_set hg).symm
  · exact List.eq_or_mem_of_mem_insertIdx hg

theorem mem_place {order : FrameOrder} {rs : List (Run F T)}
    (hg : g ∈ (place order f rs).flatMap Run.frames) : g = f ∨ g ∈ rs.flatMap Run.frames := by
  induction rs with
  | nil => exact Or.inl (by simpa [place, Run.singleton] using hg)
  | cons r rs ih =>
      unfold place at hg
      split_ifs at hg
      · rcases List.mem_append.mp hg with hr | hrs
        · exact (mem_insertFrame hr).imp_right fun hr => List.mem_append_left _ hr
        · exact Or.inr (List.mem_append_right _ hrs)
      · rcases List.mem_append.mp hg with hf | hrs
        · exact Or.inl (List.mem_singleton.mp hf)
        · exact Or.inr hrs
      · rcases List.mem_append.mp hg with hr | hrs
        · exact Or.inr (List.mem_append_left _ hr)
        · exact (ih hrs).imp_right fun hrs => List.mem_append_right _ hrs

theorem mem_toList_edit (hg : g ∈ (b.edit e).toList) : .add g = e ∨ g ∈ b.toList := by
  cases e with
  | add f =>
      rw [edit, toList, add, flatMap_mergeRuns] at hg
      exact (mem_place hg).imp_left fun hgf => congrArg BufferEdit.add hgf
  | remove start stop => exact Or.inr ((toList_remove_sublist b start stop).subset hg)
  | clear => simp [edit, clear, toList] at hg

/-- What an edited buffer holds was there before or has been added. -/
theorem mem_toList_editAll (hg : g ∈ (b.editAll es).toList) : .add g ∈ es ∨ g ∈ b.toList := by
  induction es generalizing b with
  | nil => exact Or.inr hg
  | cons e es ih =>
      rcases ih (b := b.edit e) hg with hadd | hedit
      · exact Or.inl (List.mem_cons_of_mem e hadd)
      · rcases mem_toList_edit hedit with rfl | hb
        · exact Or.inl List.mem_cons_self
        · exact Or.inr hb

end FrameBuffer

end MediaPipeline
