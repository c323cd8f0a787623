import Mathlib.Data.List.Induction
import MediaPipeline.Proofs.FrameBuffer.Edits
import MediaPipeline.Proofs.Time.Double

/-!
# Histories of a frame buffer

Which sequences of edits keep a buffer sorted. A removal may leave two runs within the gap
tolerance of each other; a frame that belongs into the second or behind it is then put into the
first, and merging the two does not sort them. This is the only way in which order is lost.
-/

namespace MediaPipeline

open MediaTime

namespace FrameBuffer

variable {F T : Type} [Frame F T] [MediaTime T] {b : FrameBuffer F T} {e : BufferEdit F T}

def Proper (es : List (BufferEdit F T)) : Prop := ∀ f, .add f ∈ es → Frame.IsTimed f

theorem isCoherent_empty (order : FrameOrder) : (empty (F := F) (T := T) order).IsCoherent where
  wellFormed := by simp [empty]
  timed := by simp [empty]
  ascending := ⟨by simp [empty], by simp [empty]⟩

variable [LawfulMediaTime T]

theorem IsCoherent.edit (hb : b.IsCoherent) (htimed : ∀ f, e = .add f → Frame.IsTimed f)
    (hplace : ∀ f, e = .add f → ¬ b.Misplaces f) : (b.edit e).IsCoherent := by
  cases e with
  | add f => exact hb.add (htimed f rfl) (hplace f rfl)
  | remove start stop => exact hb.remove start stop
  | clear => exact isCoherent_empty b.order

/-- One edit leaves a coherent buffer sorted exactly if it does not misplace a frame. -/
theorem IsCoherent.sorted_edit_iff (hb : b.IsCoherent)
    (htimed : ∀ f, e = .add f → Frame.IsTimed f) :
    (b.edit e).Sorted ↔ ∀ f, e = .add f → ¬ b.Misplaces f := by
  constructor
  · rintro hsorted f rfl hplace
    exact hb.not_sorted_add (htimed f rfl) hplace hsorted
  · intro hplace
    exact (hb.edit htimed hplace).sorted

/-- Coherence is kept along a history in which no edit of a coherent buffer misplaces. -/
theorem isCoherent_editAll (order : FrameOrder) {es : List (BufferEdit F T)} (hes : Proper es)
    (hplace : ∀ past e, past ++ [e] <+: es → ((empty order).editAll past).IsCoherent →
      ∀ f, e = .add f → ¬ ((empty order).editAll past).Misplaces f) :
    ∀ past, past <+: es → ((empty order).editAll past).IsCoherent := by
  intro past
  induction past using List.reverseRecOn with
  | nil => exact fun _ => isCoherent_empty order
  | append_singleton past e ih =>
      intro hpast
      have hcoherent := ih ((List.prefix_append past [e]).trans hpast)
      rw [editAll_concat]
      refine hcoherent.edit ?_ (hplace past e hpast hcoherent)
      rintro f rfl
      exact hes f (hpast.subset (by simp))

/-- A buffer is sorted throughout its history, and passes every check, exactly if no frame is
misplaced. -/
theorem sorted_throughout_iff (order : FrameOrder) (es : List (BufferEdit F T)) (hes : Proper es) :
    (∀ past, past <+: es → ((empty order).editAll past).Sorted ∧
      ((empty order).editAll past).passesCheck = true) ↔
    ∀ past f, past ++ [.add f] <+: es → ¬ ((empty order).editAll past).Misplaces f := by
  have htimed : ∀ past e, past ++ [e] <+: es → ∀ f, e = .add f → Frame.IsTimed f := by
    rintro past e hpast f rfl
    exact hes f (hpast.subset (by simp))
  constructor
  · intro hsorted
    have hcoherent := isCoherent_editAll order hes fun past e hpast hb => by
      have hnext := (hsorted (past ++ [e]) hpast).1
      rw [editAll_concat] at hnext
      exact (hb.sorted_edit_iff (htimed past e hpast)).mp hnext
    intro past f hpast
    have hnext := (hsorted (past ++ [.add f]) hpast).1
    rw [editAll_concat] at hnext
    have hb := hcoherent past ((List.prefix_append past _).trans hpast)
    exact (hb.sorted_edit_iff (htimed past _ hpast)).mp hnext f rfl
  · intro hplace past hpast
    have hb := isCoherent_editAll order hes (fun past e hpast _ f he =>
      hplace past f (he ▸ hpast)) past hpast
    exact ⟨hb.sorted, hb.passesCheck⟩

/-! ## A history that loses the order -/

def beat (t : Float) : EncodedFrame Float where
  pts := t
  dts := t
  duration := 0.1
  isKeyFrame := true
  stream := .video 0 "h264" 1 1
  data := []
  encryption := none

/-- Three frames in a row, the second of which is removed. The others are within the tolerance. -/
def splitBeats : List (BufferEdit (EncodedFrame Float) Float) :=
  [.add (beat 0), .add (beat 0.1), .add (beat 0.2), .remove 0.1 0.2]

theorem proper_splitBeats (t : Float) (ht : isFinite t = true) :
    Proper (splitBeats ++ [.add (beat t)]) := by
  have hduration : isFinite (0.1 : Float) = true ∧ (0 : Float) ≤ 0.1 := by decide
  have htimed : ∀ t, isFinite t = true → Frame.IsTimed (beat t) := fun t ht =>
    ⟨ht, ht, hduration.1, hduration.2⟩
  intro f hf
  simp only [splitBeats, List.cons_append, List.nil_append, List.mem_cons, BufferEdit.add.injEq,
    reduceCtorEq, List.not_mem_nil, or_false, false_or] at hf
  rcases hf with rfl | rfl | rfl | rfl
  · exact htimed _ (by decide)
  · exact htimed _ (by decide)
  · exact htimed _ (by decide)
  · exact htimed t ht

theorem sorted_throughout_iff_splitBeats :
    Proper (splitBeats ++ [.add (beat 0.2)]) ∧
    ((∀ past, past <+: splitBeats ++ [.add (beat 0.2)] →
        ((empty .dts).editAll past).Sorted ∧ ((empty .dts).editAll past).passesCheck = true) ↔
      ∀ past f, past ++ [.add f] <+: splitBeats ++ [.add (beat 0.2)] →
        ¬ ((empty .dts).editAll past).Misplaces f) :=
  have hproper := proper_splitBeats 0.2 (by decide)
  ⟨hproper, sorted_throughout_iff .dts _ hproper⟩

/-- The third frame once more ends up in front of itself, and a frame behind it goes in front of it,
which is what the check finds. -/
theorem splitBeats_not_sorted :
    ¬ (∀ es : List (BufferEdit (EncodedFrame Float) Float), Proper es →
      ∀ past, past <+: es → ((empty .dts).editAll past).Sorted) ∧
    ¬ (∀ es : List (BufferEdit (EncodedFrame Float) Float), Proper es →
      ∀ past, past <+: es → ((empty .dts).editAll past).passesCheck = true) := by
  constructor
  · intro hsorted
    have hlast := hsorted _ (proper_splitBeats 0.2 (by decide)) _ List.prefix_rfl
    exact absurd hlast (by decide)
  · intro hpasses
    have hlast := hpasses _ (proper_splitBeats 0.22 (by decide)) _ List.prefix_rfl
    exact absurd hlast (by decide)

end FrameBuffer

end MediaPipeline
