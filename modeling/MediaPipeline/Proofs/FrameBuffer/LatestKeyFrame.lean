import MediaPipeline.Proofs.FrameBuffer.Lookup
import MediaPipeline.Proofs.Time.Double

/-!
# The latest key frame

A key frame at a time or before it is sought in one run. What is found there is the latest such key
frame of the whole buffer. Nothing is found where the run of the latest one ends before the time and
another run follows it.
-/

namespace MediaPipeline

open MediaTime LawfulMediaTime

namespace FrameBuffer

section Definitions

variable {F T : Type} [Frame F T] [MediaTime T]

/-- `f` is a key frame at `t` or before, and no such key frame of the buffer has a greater key. -/
structure IsLatestKeyFrame (b : FrameBuffer F T) (t : T) (f : F) : Prop where
  mem : f ∈ b.toList
  isKeyFrame : Frame.isKeyFrame f = true
  key_le : b.order.key f ≤ t
  latest : ∀ g ∈ b.toList, Frame.isKeyFrame g = true → b.order.key g ≤ t →
    b.order.key g ≤ b.order.key f

/-- The run of `f` ends at `t` or later, or no run follows it. -/
def ReachesFrom (b : FrameBuffer F T) (t : T) (f : F) : Prop :=
  ∃ r ∈ b.runs, f ∈ r.frames ∧ (r.endsFrom b.order t = true ∨ r ∈ b.runs.getLast?)

/-- The search for a key frame gives the latest one, and gives none only if there is none. -/
structure FindsLatest (b : FrameBuffer F T) (t : T) : Prop where
  of_some : ∀ f, b.getFrame t .keyFrameBefore = some f → b.IsLatestKeyFrame t f
  of_none : b.getFrame t .keyFrameBefore = none →
    ∀ f ∈ b.toList, Frame.isKeyFrame f = true → ¬ b.order.key f ≤ t

end Definitions

variable {F T : Type} [Frame F T] [MediaTime T] [LawfulMediaTime T] {b : FrameBuffer F T} {t : T}
  {r : Run F T} {f g : F}

/-- Every frame behind a run that ends at `t` or later is after `t`, and nothing is behind the
last. -/
theorem exists_split_of_reach (hasc : b.order.Ascending b.toList) (hr : r ∈ b.runs)
    (hreach : r.endsFrom b.order t = true ∨ r ∈ b.runs.getLast?) :
    ∃ before after, b.runs = before ++ r :: after ∧
      ∀ g ∈ after.flatMap Run.frames, t < b.order.key g := by
  rcases hreach with hend | hlast
  · obtain ⟨before, after, hsplit⟩ := List.append_of_mem hr
    obtain ⟨last, hlast, hle⟩ := (Option.any_eq_true _ _).mp hend
    refine ⟨before, after, hsplit, fun g hg => lt_of_le_of_lt (of_decide_eq_true hle) ?_⟩
    have hpairwise := hasc.pairwise
    rw [toList, hsplit, List.flatMap_append, List.flatMap_cons] at hpairwise
    have hrest := (List.pairwise_append.mp hpairwise).2.1
    exact (List.pairwise_append.mp hrest).2.2 last (List.mem_of_getLast? hlast) g hg
  · obtain ⟨before, hsplit⟩ := List.getLast?_eq_some_iff.mp hlast
    exact ⟨before, [], hsplit, by simp⟩

/-- The latest key frame of the run that is searched is the latest of all. -/
theorem latest_of_latest_in_run (hasc : b.order.Ascending b.toList) (hr : r ∈ b.runs)
    (hf : f ∈ r.frames) (hreach : r.endsFrom b.order t = true ∨ r ∈ b.runs.getLast?)
    (hlatest : ∀ g ∈ r.frames, Frame.isKeyFrame g = true → b.order.key g ≤ t →
      b.order.key g ≤ b.order.key f) (hg : g ∈ b.toList) (hkey : Frame.isKeyFrame g = true)
    (hgt : b.order.key g ≤ t) : b.order.key g ≤ b.order.key f := by
  obtain ⟨before, after, hsplit, hafter⟩ := exists_split_of_reach hasc hr hreach
  have hall : b.toList = before.flatMap Run.frames ++ (r.frames ++ after.flatMap Run.frames) := by
    rw [toList, hsplit, List.flatMap_append, List.flatMap_cons]
  have hpairwise := hasc.pairwise
  rw [hall] at hg hpairwise
  rcases List.mem_append.mp hg with hg | hg
  · have hfrest : f ∈ r.frames ++ after.flatMap Run.frames := List.mem_append_left _ hf
    exact le_of_lt ((List.pairwise_append.mp hpairwise).2.2 g hg f hfrest)
  · rcases List.mem_append.mp hg with hg | hg
    · exact hlatest g hg hkey hgt
    · exact absurd hgt (not_le_of_lt (hafter g hg))

theorem IsLatestKeyFrame.eq (hasc : b.order.Ascending b.toList) (hf : b.IsLatestKeyFrame t f)
    (hg : b.IsLatestKeyFrame t g) : f = g :=
  hasc.eq_of_key_le hf.mem hg.mem (hg.latest f hf.mem hf.isKeyFrame hf.key_le)
    (hf.latest g hg.mem hg.isKeyFrame hg.key_le)

theorem exists_isLatestKeyFrame (hasc : b.order.Ascending b.toList) (hf : f ∈ b.toList)
    (hkey : Frame.isKeyFrame f = true) (hft : b.order.key f ≤ t) :
    ∃ g, b.IsLatestKeyFrame t g := by
  cases hfind : b.toList.reverse.find? fun g =>
      Frame.isKeyFrame g && decide (b.order.key g ≤ t) with
  | none =>
      have hnot := List.find?_eq_none.mp hfind f (List.mem_reverse.mpr hf)
      exact absurd hft (by simpa [hkey] using hnot)
  | some g =>
      obtain ⟨hmem, hg, hlatest⟩ := (reverse_find?_eq_some_iff hasc).mp hfind
      simp only [Bool.and_eq_true, decide_eq_true_eq] at hg hlatest
      exact ⟨g, hmem, hg.1, hg.2, fun h hh hkey hle => hlatest h hh ⟨hkey, hle⟩⟩

/-- What is found is the latest key frame, and it is found exactly if its run reaches the time. -/
theorem getFrame_eq_some_iff_isLatest (hasc : b.order.Ascending b.toList) :
    b.getFrame t .keyFrameBefore = some f ↔ b.IsLatestKeyFrame t f ∧ b.ReachesFrom t f := by
  constructor
  · intro hfound
    obtain ⟨hkey, hft⟩ := isKeyFrame_of_mem_getFrame hfound
    obtain ⟨r, hr, hf, hreach, hlatest⟩ :=
      (getFrame_keyFrameBefore_eq_some_iff hasc hkey hft).mp hfound
    refine ⟨⟨mem_toList_of_mem_getFrame hfound, hkey, hft, ?_⟩, r, hr, hf, hreach⟩
    intro g hg hgkey hgt
    exact latest_of_latest_in_run hasc hr hf hreach hlatest hg hgkey hgt
  · rintro ⟨hlatest, r, hr, hf, hreach⟩
    refine (getFrame_keyFrameBefore_eq_some_iff hasc hlatest.isKeyFrame hlatest.key_le).mpr
      ⟨r, hr, hf, hreach, fun g hg => hlatest.latest g (List.mem_flatMap_of_mem hr hg)⟩

/-- Keys that increase strictly can all be compared as soon as one of them can. -/
theorem ascending_of_key_le (hkeys : b.toList.Pairwise fun f g => b.order.key f < b.order.key g)
    (hf : f ∈ b.toList) (hft : b.order.key f ≤ t) : b.order.Ascending b.toList := by
  rcases FrameOrder.ascending_or_eq_singleton hkeys with hasc | ⟨g, hlist, hg⟩
  · exact hasc
  · rw [hlist, List.mem_singleton] at hf
    exact absurd (isNumber_of_le hft).1 (hf ▸ hg)

/-- The search gives the latest key frame at a time or before it and misses none, exactly if the run
of the latest one ends at the time or later or is the last run. If it gives a frame at all, this is
the latest one. -/
theorem findsLatest_iff (hkeys : b.toList.Pairwise fun f g => b.order.key f < b.order.key g)
    (t : T) :
    (b.FindsLatest t ↔ ∀ f, b.IsLatestKeyFrame t f → b.ReachesFrom t f) ∧
      ∀ f, b.getFrame t .keyFrameBefore = some f → b.IsLatestKeyFrame t f := by
  have hfound : ∀ f, b.getFrame t .keyFrameBefore = some f → b.IsLatestKeyFrame t f := by
    intro f hf
    have hasc := ascending_of_key_le hkeys (mem_toList_of_mem_getFrame hf)
      (isKeyFrame_of_mem_getFrame hf).2
    exact ((getFrame_eq_some_iff_isLatest hasc).mp hf).1
  refine ⟨⟨fun hfinds f hf => ?_, fun hreach => ⟨hfound, fun hnone f hf hkey hft => ?_⟩⟩, hfound⟩
  · have hasc := ascending_of_key_le hkeys hf.mem hf.key_le
    cases hget : b.getFrame t .keyFrameBefore with
    | none => exact absurd hf.key_le (hfinds.of_none hget f hf.mem hf.isKeyFrame)
    | some g =>
        obtain ⟨hg, hreach⟩ := (getFrame_eq_some_iff_isLatest hasc).mp hget
        rwa [hf.eq hasc hg]
  · have hasc := ascending_of_key_le hkeys hf hft
    obtain ⟨g, hg⟩ := exists_isLatestKeyFrame hasc hf hkey hft
    have hget := (getFrame_eq_some_iff_isLatest hasc).mpr ⟨hg, hreach g hg⟩
    rw [hnone] at hget
    cases hget

def picture (t : Float) (isKeyFrame : Bool) : EncodedFrame Float where
  pts := t
  dts := t
  duration := 1
  isKeyFrame
  stream := .video 0 "h264" 1 1
  data := []
  encryption := none

/-- Two scenes of two frames each, far apart, each with its key frame in front. -/
def twoScenes : EncodedBuffer Float :=
  (empty .dts).addAll [picture 0 true, picture 1 false, picture 5 true, picture 6 false]

theorem isLatestKeyFrame_twoScenes : twoScenes.IsLatestKeyFrame 5.5 (picture 5 true) where
  mem := by decide +kernel
  isKeyFrame := rfl
  key_le := by decide +kernel
  latest := by decide +kernel

theorem findsLatest_iff_twoScenes :
    (twoScenes.toList.Pairwise fun f g => twoScenes.order.key f < twoScenes.order.key g) ∧
      twoScenes.FindsLatest 5.5 ∧
      twoScenes.getFrame 5.5 .keyFrameBefore = some (picture 5 true) := by
  have hkeys : twoScenes.toList.Pairwise fun f g =>
      twoScenes.order.key f < twoScenes.order.key g := by decide +kernel
  have hget : twoScenes.getFrame 5.5 .keyFrameBefore = some (picture 5 true) := by
    decide +kernel
  refine ⟨hkeys, (findsLatest_iff hkeys 5.5).1.mpr fun f hf => ?_, hget⟩
  have hasc := ascending_of_key_le hkeys hf.mem hf.key_le
  rw [hf.eq hasc isLatestKeyFrame_twoScenes]
  exact ((getFrame_eq_some_iff_isLatest hasc).mp hget).2

/-- Between the two scenes there is a key frame to start from, but the search gives none. -/
theorem twoScenes_missed :
    twoScenes.Sorted ∧ twoScenes.IsLatestKeyFrame 3 (picture 0 true) ∧
      twoScenes.getFrame 3 .keyFrameBefore = none ∧ ¬ twoScenes.FindsLatest 3 := by
  have hlatest : twoScenes.IsLatestKeyFrame 3 (picture 0 true) :=
    ⟨by decide +kernel, rfl, by decide +kernel, by decide +kernel⟩
  have hnone : twoScenes.getFrame 3 .keyFrameBefore = none := by decide +kernel
  refine ⟨by decide +kernel, hlatest, hnone, fun hfinds => ?_⟩
  exact hfinds.of_none hnone _ hlatest.mem hlatest.isKeyFrame hlatest.key_le

end FrameBuffer

end MediaPipeline
