import Mathlib.Data.List.TakeWhile
import MediaPipeline.Proofs.FrameBuffer.MaximalRuns
import MediaPipeline.Proofs.FrameBuffer.Removing

/-!
# Evicting old frames

Where every frame stands on its own, removal ends at the first frame from the bound on. In a buffer
that is sorted by presentation time, eviction takes away the frames before the bound and nothing
else, and the runs that are left are as far apart as before.
-/

namespace MediaPipeline

open MediaTime LawfulMediaTime

variable {F T : Type} [Frame F T] [MediaTime T]

namespace FrameBuffer

/-- The frames that are shown first at `t` or later. -/
def shownFrom (t : T) (fs : List F) : List F := fs.filter fun f => decide (t ≤ Frame.pts f)

variable [LawfulMediaTime T] {fs : List F} {rs : List (Run F T)} {stop : T} {removing : Bool}

theorem shownFrom_of_mem {f : F} (hasc : FrameOrder.pts.Ascending (f :: fs))
    (hf : stop ≤ Frame.pts f) : shownFrom stop (f :: fs) = f :: fs := by
  refine List.filter_eq_self.mpr fun g hg => decide_eq_true ?_
  rcases List.mem_cons.mp hg with rfl | hg
  · exact hf
  · exact le_trans hf (le_of_lt (List.rel_of_pairwise_cons hasc.pairwise hg))

theorem dropWhile_endsRemoval (hkey : ∀ f : F, Frame.isKeyFrame f = true)
    (hasc : FrameOrder.pts.Ascending fs) :
    fs.dropWhile (! endsRemoval stop ·) = shownFrom stop fs := by
  induction fs with
  | nil => rfl
  | cons f fs ih =>
      by_cases hf : stop ≤ Frame.pts f
      · rw [shownFrom_of_mem hasc hf]
        simp [endsRemoval, hf, hkey]
      · have hskip : (! endsRemoval stop f) = true := by simp [endsRemoval, hf]
        have hrest : shownFrom stop (f :: fs) = shownFrom stop fs := by simp [shownFrom, hf]
        rw [List.dropWhile_cons, if_pos hskip, hrest]
        exact ih hasc.tail

/-- Of each run only the part that is shown from the bound on is left. -/
theorem cut_negInf (removing : Bool) (hkey : ∀ f : F, Frame.isKeyFrame f = true)
    (hstop : IsNumber stop) (hasc : FrameOrder.pts.Ascending fs) :
    [(cut negInf stop removing fs).1, (cut negInf stop removing fs).2.1].filter (! ·.isEmpty) =
      [shownFrom stop fs].filter (! ·.isEmpty) := by
  cases removing with
  | true => simp [cut, dropWhile_endsRemoval hkey hasc]
  | false =>
      cases fs with
      | nil => rfl
      | cons f fs =>
          have hnumber : ∀ g ∈ f :: fs, IsNumber (Frame.pts g) := hasc.isNumber
          by_cases hf : stop ≤ Frame.pts f
          · -- Nothing is shown before the bound.
            have hall : ∀ g ∈ f :: fs, (! within negInf stop g) = true := by
              intro g hg
              rw [← shownFrom_of_mem hasc hf] at hg
              have hle : stop ≤ Frame.pts g := of_decide_eq_true (List.mem_filter.mp hg).2
              have hlt : ¬ Frame.pts g < stop := fun hlt => not_le_of_lt hlt hle
              simp [within, hlt]
            have hkept := List.takeWhile_eq_self_iff.mpr hall
            have hrest := List.dropWhile_eq_nil_iff.mpr hall
            simp only [cut, Bool.false_eq_true, if_false, hkept, hrest, shownFrom_of_mem hasc hf]
            rfl
          · have hlt : Frame.pts f < stop := lt_of_not_le (hnumber f List.mem_cons_self) hstop hf
            have hfirst : (! within negInf stop f) = false := by
              simp [within, hlt, negInf_le (hnumber f List.mem_cons_self)]
            have hrest : shownFrom stop (f :: fs) = shownFrom stop fs := by
              simp [shownFrom, hf]
            simp [cut, hfirst, hrest, dropWhile_endsRemoval hkey hasc.tail]

theorem removeRuns_negInf (hkey : ∀ f : F, Frame.isKeyFrame f = true) (hstop : IsNumber stop)
    (hasc : ∀ r ∈ rs, FrameOrder.pts.Ascending r.frames) :
    removeRuns negInf stop removing rs =
      ((rs.map fun r => shownFrom stop r.frames).filter (! ·.isEmpty)).map Run.ofFrames := by
  induction rs generalizing removing with
  | nil => rfl
  | cons r rs ih =>
      obtain ⟨hr, hlater⟩ := List.forall_mem_cons.mp hasc
      have hcut := cut_negInf removing hkey hstop hr
      simp only [removeRuns, hcut, ih hlater, List.map_cons]
      rw [← List.map_append, ← List.filter_append]
      rfl

variable {b : FrameBuffer F T}

theorem toList_remove_negInf (hkey : ∀ f : F, Frame.isKeyFrame f = true) (hstop : IsNumber stop)
    (hasc : ∀ r ∈ b.runs, FrameOrder.pts.Ascending r.frames) :
    (b.remove negInf stop).toList = shownFrom stop b.toList := by
  have hparts : ∀ parts : List (List F),
      ((parts.filter (! ·.isEmpty)).map (Run.ofFrames (T := T))).flatMap Run.frames =
        parts.flatten := by
    intro parts
    induction parts with
    | nil => rfl
    | cons fs parts ih => cases fs <;> simp_all [Run.ofFrames]
  simp only [toList, remove, removeRuns_negInf hkey hstop hasc, hparts]
  induction b.runs with
  | nil => rfl
  | cons r rs ih => simp [shownFrom] at ih ⊢; rw [ih]

theorem getLast?_shownFrom (hasc : FrameOrder.pts.Ascending fs) (hstop : IsNumber stop)
    (hne : shownFrom stop fs ≠ []) : (shownFrom stop fs).getLast? = fs.getLast? := by
  have hsplit : fs.filter (fun g => decide (Frame.pts g < stop)) ++ shownFrom stop fs = fs :=
    hasc.filter_append_filter hstop
  conv_rhs => rw [← hsplit]
  exact (List.getLast?_append_of_ne_nil _ hne).symm

theorem separated_shownFrom (hsep : Separated .pts rs) (hne : ∀ r ∈ rs, r.frames ≠ [])
    (hasc : FrameOrder.pts.Ascending (rs.flatMap Run.frames)) (hstop : IsNumber stop) :
    Separated .pts (((rs.map fun r => shownFrom stop r.frames).filter (! ·.isEmpty)).map
      Run.ofFrames) := by
  induction rs with
  | nil => exact List.isChain_nil
  | cons r rs ih =>
      obtain ⟨-, hlaterne⟩ := List.forall_mem_cons.mp hne
      rw [List.flatMap_cons] at hasc
      have htail : Separated .pts rs := hsep.tail
      by_cases hr : shownFrom stop r.frames = []
      · have hlater := ih htail hlaterne (hasc.of_sublist (List.sublist_append_right _ _))
        simpa [hr] using hlater
      · -- Every later run begins after the bound and stays as it is.
        obtain ⟨g, hg⟩ := List.exists_mem_of_ne_nil _ hr
        obtain ⟨hgr, hgstop⟩ := List.mem_filter.mp hg
        have hkeep : rs.map (fun s => shownFrom stop s.frames) = rs.map Run.frames := by
          refine List.map_congr_left fun s hs => List.filter_eq_self.mpr fun h hh => ?_
          have hlt := (List.pairwise_append.mp hasc.pairwise).2.2 g hgr h
            (List.mem_flatMap.mpr ⟨s, hs, hh⟩)
          exact decide_eq_true (le_trans (of_decide_eq_true hgstop) (le_of_lt hlt))
        have hfull : (rs.map Run.frames).filter (! ·.isEmpty) = rs.map Run.frames := by
          refine List.filter_eq_self.mpr fun fs hfs => ?_
          obtain ⟨s, hs, rfl⟩ := List.mem_map.mp hfs
          simpa using hlaterne s hs
        have hparts : ((r :: rs).map fun r => shownFrom stop r.frames).filter (! ·.isEmpty) =
            shownFrom stop r.frames :: rs.map Run.frames := by
          rw [List.map_cons, hkeep, List.filter_cons_of_pos (by simpa using hr), hfull]
        have hlast := getLast?_shownFrom (hasc.of_sublist (List.sublist_append_left _ _)) hstop hr
        rw [hparts, List.map_cons, List.map_map]
        cases rs with
        | nil => exact List.isChain_singleton _
        | cons next rs =>
            obtain ⟨hborder, hchain⟩ := List.isChain_cons_cons.mp hsep
            have hrest := (List.isChain_map (R := fun r next => touches .pts r next = false)
              (Run.ofFrames ∘ Run.frames)).mpr hchain
            refine List.isChain_cons_cons.mpr ⟨?_, hrest⟩
            simp only [touches, Run.reachesFrame, Run.ofFrames, Function.comp_apply] at hborder ⊢
            rw [hlast]
            exact hborder

/-- Eviction keeps runs out of reach of each other. -/
theorem IsSeparated.remove_negInf (hkey : ∀ f : F, Frame.isKeyFrame f = true)
    (hstop : IsNumber stop) (hb : b.IsSeparated) (horder : b.order = .pts) :
    (b.remove negInf stop).IsSeparated where
  coherent := hb.coherent.remove negInf stop
  separated := by
    have hasc : FrameOrder.pts.Ascending b.toList := horder ▸ hb.coherent.ascending
    have hruns : ∀ r ∈ b.runs, FrameOrder.pts.Ascending r.frames := fun r hr =>
      horder ▸ Coherent.ascending_of_mem hb.coherent hr
    simp only [remove, horder, removeRuns_negInf hkey hstop hruns]
    exact separated_shownFrom (horder ▸ hb.separated) hb.isSpaced.laid.frames_ne_nil hasc hstop

end FrameBuffer

/-! ## Spans in exact time -/

/-- The span of the run holds each of its frames. -/
def Run.Covers (r : Run F T) : Prop :=
  ∀ f ∈ r.frames, r.start ≤ Frame.pts f ∧ Frame.presentationEnd f ≤ r.stop

/-- The time that frames last all together. -/
def totalDuration (fs : List F) : T := (fs.map Frame.duration).sum

/-- The frames of the run that is measured to see how far the buffer reaches from `t` on. -/
def FrameBuffer.measured (b : FrameBuffer F T) (t : T) : List F :=
  match b.runs.find? (fun r => decide (t < r.stop)) with
  | some r => if r.start < t + maxGap then r.frames else []
  | none => []

omit [Frame F T] in
theorem FrameBuffer.exists_run_of_mem_measured {b : FrameBuffer F T} {t : T} {f : F}
    (hf : f ∈ b.measured t) : ∃ r ∈ b.runs, b.measured t = r.frames := by
  unfold measured at hf ⊢
  split at hf
  · next r hfind =>
    split_ifs at hf with hstart
    · exact ⟨r, List.mem_of_find?_eq_some hfind, if_pos hstart⟩
    · cases hf
  · cases hf

section Exact

open ExactTime

variable {F : Type} [Frame F ExactTime] {f : F} {fs : List F} {r s : Run F ExactTime}
  {order : FrameOrder} {b : FrameBuffer F ExactTime}

theorem Run.covers_singleton (f : F) : (Run.singleton f : Run F ExactTime).Covers := by
  intro g hg
  rw [List.mem_singleton.mp hg]
  exact ⟨ExactTime.refl _, ExactTime.refl _⟩

theorem Run.covers_insert (hr : r.Covers) : (r.insert order f).Covers := by
  have hstart := earlier_le (ExactTime.refl r.start) (ExactTime.refl (Frame.pts f))
  have hstop := le_later (ExactTime.refl r.stop) (ExactTime.refl (Frame.presentationEnd f))
  intro g hg
  rcases FrameBuffer.mem_insertFrame hg with rfl | hg
  · exact ⟨hstart.2, hstop.2⟩
  · exact ⟨le_trans hstart.1 (hr g hg).1, le_trans (hr g hg).2 hstop.1⟩

theorem Run.covers_append (hr : r.Covers) (hs : s.Covers) : (r.append s).Covers := by
  have hstart := earlier_le (ExactTime.refl r.start) (ExactTime.refl s.start)
  have hstop := le_later (ExactTime.refl r.stop) (ExactTime.refl s.stop)
  intro g hg
  rcases List.mem_append.mp hg with hg | hg
  · exact ⟨le_trans hstart.1 (hr g hg).1, le_trans (hr g hg).2 hstop.1⟩
  · exact ⟨le_trans hstart.2 (hs g hg).1, le_trans (hs g hg).2 hstop.2⟩

theorem Run.covers_ofFrames (fs : List F) : (Run.ofFrames fs : Run F ExactTime).Covers := by
  intro g hg
  exact ⟨(foldl_earlier_le (ExactTime.refl _) fun f _ => ExactTime.refl _).2 g hg,
    (le_foldl_later (ExactTime.refl _) fun f _ => ExactTime.refl _).2 g hg⟩

namespace FrameBuffer

theorem covers_add (hb : ∀ r ∈ b.runs, r.Covers) : ∀ r ∈ (b.add f).runs, r.Covers := by
  refine forall_mem_mergeRuns (fun _ _ _ hr hs => Run.covers_append hr hs) ?_
  exact forall_mem_place (Run.covers_singleton f) (fun _ _ _ _ hr => Run.covers_insert hr) hb

theorem covers_remove (start stop : ExactTime) : ∀ r ∈ (b.remove start stop).runs, r.Covers := by
  intro r hr
  obtain ⟨fs, -, -, rfl⟩ := exists_ofFrames_of_mem_removeRuns hr
  exact Run.covers_ofFrames fs

end FrameBuffer

/-! ## How long disjoint frames last -/

theorem add_totalDuration_le {lo hi : ExactTime}
    (hfs : fs.Pairwise fun f g => Frame.presentationEnd f ≤ Frame.pts g)
    (hlo : ∀ f ∈ fs, lo ≤ Frame.pts f) (hhi : ∀ f ∈ fs, Frame.presentationEnd f ≤ hi)
    (hle : lo ≤ hi) : lo + totalDuration fs ≤ hi := by
  induction fs generalizing lo with
  | nil => simpa [totalDuration] using hle
  | cons f fs ih =>
      obtain ⟨hf, hlater⟩ := List.pairwise_cons.mp hfs
      obtain ⟨hflo, -⟩ := List.forall_mem_cons.mp hlo
      obtain ⟨hfhi, hhi⟩ := List.forall_mem_cons.mp hhi
      have hrest : Frame.presentationEnd f + totalDuration fs ≤ hi := ih hlater hf hhi hfhi
      have htotal : totalDuration (f :: fs) = Frame.duration f + totalDuration fs := by
        simp [totalDuration]
      rw [htotal]
      refine le_trans (ExactTime.add_le_add_right hflo _) ?_
      rwa [← ExactTime.add_assoc]

theorem le_sub_of_add_le {q : ℚ} {a c : ExactTime} (h : finite q + a ≤ c) : a ≤ c - finite q := by
  rw [sub_eq]
  cases a <;> cases c <;> simp_all [ExactTime.neg]
  linarith

theorem exists_later_eq_finite {q : ℚ} {a : ExactTime} (ha : a < finite q + maxGap) :
    ∃ p, later (finite q) a = finite p := by
  rcases later_eq_or (finite q) a with h | h
  · exact ⟨q, h⟩
  · have hle := (le_later (ExactTime.refl (finite q)) (ExactTime.refl a)).1
    rw [h] at hle ⊢
    cases a with
    | negInf => exact absurd hle (not_finite_le_negInf q)
    | finite p => exact ⟨p, rfl⟩
    | posInf => exact absurd (le_posInf _) (lt_iff_not_le.mp ha)

namespace FrameBuffer

/-- Frames that do not overlap last no longer than what is measured. -/
theorem totalDuration_measured_le (hb : ∀ r ∈ b.runs, r.WellFormed)
    (hcovers : ∀ r ∈ b.runs, r.Covers)
    (hdisjoint : b.toList.Pairwise fun f g => Frame.presentationEnd f ≤ Frame.pts g) (q : ℚ) :
    totalDuration (shownFrom (finite q) (b.measured (finite q))) ≤
      TimeRange.bufferedAhead b.ranges (finite q) := by
  have hfind : b.ranges.find? (fun r => decide (finite q < r.stop)) =
      (b.runs.find? fun r => decide (finite q < r.stop)).map Run.range := List.find?_map
  unfold measured TimeRange.bufferedAhead
  rw [hfind]
  cases hrun : b.runs.find? fun r => decide (finite q < r.stop) with
  | none => exact ExactTime.refl _
  | some r =>
      have hr : r ∈ b.runs := List.mem_of_find?_eq_some hrun
      have hstop : finite q < r.stop := by simpa using List.find?_some hrun
      simp only [Option.map_some]
      by_cases hstart : r.start < finite q + maxGap
      · have hrange : r.range.start < finite q + maxGap := hstart
        obtain ⟨p, hp⟩ := exists_later_eq_finite hstart
        have hbegin : later (finite q) r.range.start = finite p := hp
        rw [if_pos hstart, if_pos hrange, hbegin]
        apply le_sub_of_add_le
        have hframes := (List.pairwise_flatMap.mp hdisjoint).1 r hr
        refine add_totalDuration_le (hframes.sublist List.filter_sublist) ?_ ?_ (hp ▸ ?_)
        · intro f hf
          obtain ⟨hmem, hle⟩ := List.mem_filter.mp hf
          rw [← hp]
          exact later_le (of_decide_eq_true hle) (hcovers r hr f hmem).1
        · intro f hf
          exact (hcovers r hr f (List.mem_filter.mp hf).1).2
        · exact later_le (le_of_lt hstop) (hb r hr).start_le_stop
      · have hrange : ¬ r.range.start < finite q + maxGap := hstart
        rw [if_neg hstart, if_neg hrange]
        exact ExactTime.refl _

end FrameBuffer

/-! ## How long a buffer lasts with one more frame -/

theorem totalDuration_append (fs gs : List F) :
    totalDuration (fs ++ gs) = totalDuration fs + totalDuration gs := by
  induction fs with
  | nil => exact (ExactTime.zero_add _).symm
  | cons f fs ih =>
      have htotal : ∀ hs : List F,
          totalDuration (f :: hs) = Frame.duration f + totalDuration hs := by
        simp [totalDuration]
      rw [List.cons_append, htotal, htotal, ih, ExactTime.add_assoc]

theorem totalDuration_le_of_sublist {gs : List F} (hfs : fs.Sublist gs)
    (hgs : ∀ g ∈ gs, 0 ≤ Frame.duration g) : totalDuration fs ≤ totalDuration gs := by
  induction hfs with
  | slnil => exact ExactTime.refl _
  | @cons fs gs g hsub ih =>
      obtain ⟨hg, hlater⟩ := List.forall_mem_cons.mp hgs
      have htotal : totalDuration (g :: gs) = totalDuration gs + Frame.duration g := by
        simp [totalDuration, ExactTime.add_comm]
      rw [htotal]
      exact le_trans (ih hlater) (le_add_of_nonneg hg _)
  | @cons_cons fs gs g hsub ih =>
      obtain ⟨-, hlater⟩ := List.forall_mem_cons.mp hgs
      have htotal : ∀ hs : List F,
          totalDuration (g :: hs) = totalDuration hs + Frame.duration g := by
        simp [totalDuration, ExactTime.add_comm]
      rw [htotal, htotal]
      exact ExactTime.add_le_add_right (ih hlater) _

theorem totalDuration_shownFrom_cons_le (t : ExactTime) (hf : 0 ≤ Frame.duration f) (fs : List F) :
    totalDuration (FrameBuffer.shownFrom t (f :: fs)) ≤
      totalDuration (FrameBuffer.shownFrom t fs) + Frame.duration f := by
  unfold FrameBuffer.shownFrom
  rw [List.filter_cons]
  split_ifs
  · simp [totalDuration, ExactTime.add_comm, ExactTime.refl]
  · exact le_add_of_nonneg hf _

theorem totalDuration_update_le (t : ExactTime) (hfs : order.Ascending fs)
    (hnonneg : ∀ g ∈ fs, 0 ≤ Frame.duration g) (hf : 0 ≤ Frame.duration f) :
    totalDuration (FrameBuffer.shownFrom t (order.update f fs)) ≤
      totalDuration (FrameBuffer.shownFrom t fs) + Frame.duration f := by
  have hrest : (fs.filter (fun g => decide (order.key g < order.key f)) ++
      fs.filter fun g => decide (order.key f < order.key g)).Sublist fs := by
    conv_rhs => rw [← hfs.filter_append_filter (ExactTime.refl (order.key f))]
    refine List.Sublist.append_left (List.monotone_filter_right fs fun g hg => ?_) _
    exact decide_eq_true (le_of_lt (of_decide_eq_true hg))
  have htotal : ∀ below above : List F,
      totalDuration (FrameBuffer.shownFrom t (below ++ f :: above)) ≤
        totalDuration (FrameBuffer.shownFrom t (below ++ above)) + Frame.duration f := by
    intro below above
    have hcons := ExactTime.add_le_add_right (totalDuration_shownFrom_cons_le t hf above)
      (totalDuration (FrameBuffer.shownFrom t below))
    rw [ExactTime.add_comm, ExactTime.add_comm (_ + _), ← ExactTime.add_assoc] at hcons
    simpa only [FrameBuffer.shownFrom, List.filter_append, totalDuration_append] using hcons
  refine le_trans (htotal _ _) (ExactTime.add_le_add_right ?_ _)
  exact totalDuration_le_of_sublist (hrest.filter _)
    fun g hg => hnonneg g (List.mem_filter.mp hg).1

end Exact

end MediaPipeline
