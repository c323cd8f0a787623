import Mathlib.Data.List.SplitBy
import MediaPipeline.Proofs.FrameBuffer.Edits
import MediaPipeline.Proofs.FrameBuffer.Separated
import MediaPipeline.Proofs.Time.Exact

/-!
# Maximal runs

When no frame ends before an earlier one, a buffer that has only been added to holds the maximal
stretches of frames within the gap tolerance. A new frame that falls between two frames of a run is
reached by the one and reaches the other, so no addition leaves a break inside a run, and merging
leaves none between runs that touch. The stretches are determined by the frames alone, hence so is
the buffer, whatever the order in which they were added.
-/

namespace MediaPipeline

open MediaTime LawfulMediaTime

variable {F T : Type} [Frame F T] [MediaTime T]

namespace FrameOrder

variable {order : FrameOrder} {f g : F} {fs : List F}

/-- The latest key that a frame reaches. -/
def reach (order : FrameOrder) (f : F) : T := order.key f + Frame.duration f + maxGap

theorem reaches_iff : order.reaches f g = true ↔ order.key g ≤ order.reach f :=
  decide_eq_true_iff

/-- A frame with a key of its own goes between those below it and those above it. -/
theorem Ascending.exists_update_eq [LawfulMediaTime T] (hfs : order.Ascending fs)
    (hf : IsNumber (order.key f)) (hapart : ∀ g ∈ fs, order.Apart f g) :
    ∃ below above, fs = below ++ above ∧ order.update f fs = below ++ f :: above ∧
      (∀ g ∈ below, order.key g < order.key f) ∧ ∀ g ∈ above, order.key f < order.key g := by
  refine ⟨fs.filter fun g => decide (order.key g < order.key f),
    fs.filter fun g => decide (order.key f < order.key g), ?_, rfl, ?_, ?_⟩
  · have hupper : fs.filter (fun g => decide (order.key f ≤ order.key g)) =
        fs.filter (fun g => decide (order.key f < order.key g)) := by
      apply List.filter_congr
      intro g hg
      rcases hapart g hg with hlt | hlt
      · simp [hlt, le_of_lt hlt]
      · simp [not_le_of_lt hlt, not_lt_of_lt hlt]
    rw [← hupper]
    exact (hfs.filter_append_filter hf).symm
  · intro g hg
    exact of_decide_eq_true (List.mem_filter.mp hg).2
  · intro g hg
    exact of_decide_eq_true (List.mem_filter.mp hg).2

theorem Ascending.update_perm [LawfulMediaTime T] (hfs : order.Ascending fs)
    (hf : IsNumber (order.key f)) (hapart : ∀ g ∈ fs, order.Apart f g) :
    (order.update f fs).Perm (f :: fs) := by
  obtain ⟨below, above, rfl, hupdate, -, -⟩ := hfs.exists_update_eq hf hapart
  rw [hupdate]
  exact List.perm_middle

end FrameOrder

namespace Run

variable {order : FrameOrder} {f : F} {r s : Run F T}

/-- Every frame of the run reaches the one after it. -/
def Linked (order : FrameOrder) (r : Run F T) : Prop :=
  r.frames.IsChain fun f g => order.reaches f g = true

/-- The span goes from the earliest presentation to the latest end of the frames. -/
structure Tight (r : Run F T) : Prop where
  start_le : ∀ f ∈ r.frames, r.start ≤ Frame.pts f
  le_stop : ∀ f ∈ r.frames, Frame.presentationEnd f ≤ r.stop
  start_attained : ∃ f ∈ r.frames, Frame.pts f = r.start
  stop_attained : ∃ f ∈ r.frames, Frame.presentationEnd f = r.stop

theorem linked_append (hr : r.Linked order) (hs : s.Linked order)
    (htouch : FrameBuffer.touches order r s = true) : (r.append s).Linked order := by
  apply List.isChain_append.mpr
  refine ⟨hr, hs, ?_⟩
  intro last hlast first hfirst
  simpa [FrameBuffer.touches, reachesFrame, Option.mem_def.mp hfirst, Option.mem_def.mp hlast]
    using htouch

variable [LawfulMediaTime T]

/-- Inserting a frame between two frames of the run breaks no link: the one in front reaches a later
frame, and the new frame reaches as far as the one in front. -/
theorem linked_insert (hr : r.Linked order) (hasc : order.Ascending r.frames)
    (hf : IsNumber (order.key f)) (hapart : ∀ g ∈ r.frames, order.Apart f g)
    (hends : ∀ g ∈ r.frames, order.key g < order.key f → order.reach g ≤ order.reach f)
    (hreach : r.reachesFrame order f = true) (hback : r.reachedBy order f = true) :
    (r.insert order f).Linked order := by
  obtain ⟨below, above, hframes, hupdate, hbelow, habove⟩ := hasc.exists_update_eq hf hapart
  have hinsert : (r.insert order f).frames = below ++ f :: above :=
    (hasc.insertFrame_eq hf).trans hupdate
  rw [Linked, hframes] at hr
  obtain ⟨hlinkedBelow, hlinkedAbove, hjoint⟩ := List.isChain_append.mp hr
  rw [Linked, hinsert]
  refine List.isChain_append.mpr ⟨hlinkedBelow, List.isChain_cons.mpr ⟨?_, hlinkedAbove⟩, ?_⟩
  · intro next hnext
    cases hlast : below.getLast? with
    | none =>
        rw [List.getLast?_eq_none_iff.mp hlast, List.nil_append] at hframes
        simpa [reachedBy, hframes, Option.mem_def.mp hnext] using hback
    | some last =>
        have hmem : last ∈ below := List.mem_of_getLast? hlast
        have hlink := FrameOrder.reaches_iff.mp (hjoint last hlast next hnext)
        apply FrameOrder.reaches_iff.mpr
        exact le_trans hlink (hends last (by simp [hframes, hmem]) (hbelow last hmem))
  · intro last hlast first hfirst
    obtain rfl : f = first := by simpa using hfirst
    cases hnext : above.head? with
    | none =>
        rw [List.head?_eq_none_iff.mp hnext, List.append_nil] at hframes
        simpa [reachesFrame, hframes, Option.mem_def.mp hlast] using hreach
    | some next =>
        have hlt := habove next (List.mem_of_head? hnext)
        have hlink := FrameOrder.reaches_iff.mp (hjoint last hlast next hnext)
        exact FrameOrder.reaches_iff.mpr (le_trans (le_of_lt hlt) hlink)

/-! ## Spans -/

theorem tight_singleton (hf : Frame.IsTimed f) : (singleton f : Run F T).Tight := by
  have hpts : IsNumber (Frame.pts f) := isNumber_of_isFinite hf.pts
  have hend : IsNumber (Frame.presentationEnd f) :=
    (isNumber_of_le (le_add hpts hf.duration hf.duration_nonneg)).2
  constructor
  · simpa [singleton, IsNumber] using hpts
  · simpa [singleton, IsNumber] using hend
  · exact ⟨f, List.mem_singleton_self f, rfl⟩
  · exact ⟨f, List.mem_singleton_self f, rfl⟩

/-- Growing a run by a frame and joining it with another run do the same to its span. -/
theorem tight_of_mem_iff {q : Run F T} (hr : r.Tight) (hs : s.Tight)
    (hmem : ∀ g, g ∈ q.frames ↔ g ∈ r.frames ∨ g ∈ s.frames)
    (hstart : q.start = earlier r.start s.start) (hstop : q.stop = later r.stop s.stop) :
    q.Tight := by
  obtain ⟨first, hfirst, hfirst_eq⟩ := hr.start_attained
  obtain ⟨first', hfirst', hfirst_eq'⟩ := hs.start_attained
  obtain ⟨last, hlast, hlast_eq⟩ := hr.stop_attained
  obtain ⟨last', hlast', hlast_eq'⟩ := hs.stop_attained
  have hearlier := earlier_le (isNumber_of_le (hr.start_le first hfirst)).1
    (isNumber_of_le (hs.start_le first' hfirst')).1
  have hlater := le_later (isNumber_of_le (hr.le_stop last hlast)).2
    (isNumber_of_le (hs.le_stop last' hlast')).2
  constructor
  · intro g hg
    rw [hstart]
    rcases (hmem g).mp hg with hg | hg
    · exact le_trans hearlier.1 (hr.start_le g hg)
    · exact le_trans hearlier.2 (hs.start_le g hg)
  · intro g hg
    rw [hstop]
    rcases (hmem g).mp hg with hg | hg
    · exact le_trans (hr.le_stop g hg) hlater.1
    · exact le_trans (hs.le_stop g hg) hlater.2
  · rw [hstart]
    rcases earlier_eq_or r.start s.start with heq | heq
    · exact ⟨first, (hmem first).mpr (Or.inl hfirst), hfirst_eq.trans heq.symm⟩
    · exact ⟨first', (hmem first').mpr (Or.inr hfirst'), hfirst_eq'.trans heq.symm⟩
  · rw [hstop]
    rcases later_eq_or r.stop s.stop with heq | heq
    · exact ⟨last, (hmem last).mpr (Or.inl hlast), hlast_eq.trans heq.symm⟩
    · exact ⟨last', (hmem last').mpr (Or.inr hlast'), hlast_eq'.trans heq.symm⟩

theorem tight_append (hr : r.Tight) (hs : s.Tight) : (r.append s).Tight :=
  tight_of_mem_iff hr hs (fun _ => List.mem_append) rfl rfl

theorem tight_insert (hr : r.Tight) (hasc : order.Ascending r.frames) (hf : Frame.IsTimed f)
    (hapart : ∀ g ∈ r.frames, order.Apart f g) : (r.insert order f).Tight := by
  have hnumber : IsNumber (order.key f) := FrameOrder.isNumber_key hf
  have hperm : (r.insert order f).frames.Perm (f :: r.frames) := by
    rw [insert, hasc.insertFrame_eq hnumber]
    exact hasc.update_perm hnumber hapart
  apply tight_of_mem_iff hr (tight_singleton hf) _ rfl rfl
  intro g
  rw [hperm.mem_iff, List.mem_cons, or_comm]
  simp [singleton]

end Run

namespace FrameBuffer

variable {order : FrameOrder} {f g : F} {rs : List (Run F T)} {b c : FrameBuffer F T}
variable [LawfulMediaTime T]

omit [LawfulMediaTime T] in
theorem Coherent.ascending_of_mem {r : Run F T} (hrs : Coherent order rs) (hr : r ∈ rs) :
    order.Ascending r.frames where
  isNumber g hg := hrs.ascending.isNumber g (List.mem_flatMap.mpr ⟨r, hr, hg⟩)
  pairwise := (List.pairwise_flatMap.mp hrs.ascending.pairwise).1 r hr

/-- The runs are linked, out of reach of each other, and span just their frames. -/
structure HasMaximalRuns (b : FrameBuffer F T) : Prop where
  isSeparated : b.IsSeparated
  linked : ∀ r ∈ b.runs, r.Linked b.order
  tight : ∀ r ∈ b.runs, r.Tight

omit [LawfulMediaTime T] in
theorem hasMaximalRuns_empty (order : FrameOrder) :
    (empty (F := F) (T := T) order).HasMaximalRuns where
  isSeparated := isSeparated_of_runs_eq_nil rfl
  linked := by simp [empty]
  tight := by simp [empty]

theorem HasMaximalRuns.add (hb : b.HasMaximalRuns) (hf : Frame.IsTimed f)
    (hapart : ∀ g ∈ b.toList, b.order.Apart f g)
    (hends : ∀ g ∈ b.toList, b.order.key g < b.order.key f → b.order.reach g ≤ b.order.reach f) :
    (b.add f).HasMaximalRuns := by
  have hcoherent := hb.isSeparated.coherent
  have hmem : ∀ r ∈ b.runs, ∀ g ∈ r.frames, g ∈ b.toList := fun r hr g hg =>
    List.mem_flatMap.mpr ⟨r, hr, hg⟩
  refine ⟨hb.isSeparated.add hf, ?_, ?_⟩
  · apply forall_mem_mergeRuns fun r s htouch hr hs => Run.linked_append hr hs htouch
    apply forall_mem_place (List.isChain_singleton f) _ hb.linked
    intro r hr hreach hback hlinked
    apply Run.linked_insert hlinked (hcoherent.ascending_of_mem hr)
      (FrameOrder.isNumber_key hf) _ _ hreach hback
    · exact fun g hg => hapart g (hmem r hr g hg)
    · exact fun g hg => hends g (hmem r hr g hg)
  · apply forall_mem_mergeRuns fun r s _ hr hs => Run.tight_append hr hs
    apply forall_mem_place (Run.tight_singleton hf) _ hb.tight
    intro r hr _ _ htight
    exact Run.tight_insert htight (hcoherent.ascending_of_mem hr) hf
      fun g hg => hapart g (hmem r hr g hg)

/-! ## Adding frames one after another -/

/-- Frames with keys of their own, none of which reaches less far than an earlier one, leave maximal
runs in whatever order they are added. -/
theorem hasMaximalRuns_addAll (order : FrameOrder) {fs : List F}
    (htimed : ∀ f ∈ fs, Frame.IsTimed f) (hapart : fs.Pairwise order.Apart)
    (hends : ∀ f ∈ fs, ∀ g ∈ fs, order.key g < order.key f → order.reach g ≤ order.reach f) :
    ((empty order).addAll fs).HasMaximalRuns ∧ ((empty order).addAll fs).order = order ∧
      ((empty order).addAll fs).toList.Perm fs := by
  induction fs using List.reverseRecOn with
  | nil => exact ⟨hasMaximalRuns_empty order, rfl, List.Perm.refl []⟩
  | append_singleton fs f ih =>
      obtain ⟨hpast, -, hlast⟩ := List.pairwise_append.mp hapart
      obtain ⟨hruns, horder, hperm⟩ := ih (fun g hg => htimed g (List.mem_append_left _ hg)) hpast
        fun g hg h hh => hends g (List.mem_append_left _ hg) h (List.mem_append_left _ hh)
      have hf : Frame.IsTimed f := htimed f (by simp)
      have hfresh : ∀ g ∈ ((empty order).addAll fs).toList, order.Apart f g := by
        intro g hg
        exact (hlast g (hperm.subset hg) f List.mem_cons_self).symm
      have hreach : ∀ g ∈ ((empty order).addAll fs).toList,
          order.key g < order.key f → order.reach g ≤ order.reach f := by
        intro g hg
        exact hends f (by simp) g (List.mem_append_left _ (hperm.subset hg))
      have hstep : (empty order).addAll (fs ++ [f]) = ((empty order).addAll fs).add f := by
        simp [addAll]
      have hupdate := hruns.isSeparated.coherent.ascending.update_perm
        (FrameOrder.isNumber_key hf) (horder.symm ▸ hfresh)
      rw [hstep]
      refine ⟨hruns.add hf (horder.symm ▸ hfresh) (horder.symm ▸ hreach), horder, ?_⟩
      rw [hruns.isSeparated.toList_add hf]
      have happend : (f :: fs).Perm (fs ++ [f]) := (List.perm_append_singleton f fs).symm
      exact hupdate.trans ((hperm.cons f).trans happend)

/-! ## The runs are determined by the frames -/

omit [LawfulMediaTime T] in
theorem not_reaches_of_border {r : Run F T} {after : List F} (hrs : Coherent order rs)
    (hseparated : Separated order (r :: rs)) (hlast : r.frames.getLast? = some f)
    (hfirst : rs.flatMap Run.frames = g :: after) : order.reaches f g = false := by
  cases rs with
  | nil => simp at hfirst
  | cons s rs =>
      have hne := (hrs.wellFormed s List.mem_cons_self).frames_ne_nil
      obtain ⟨first, fs, hframes⟩ := List.exists_cons_of_ne_nil hne
      rw [List.flatMap_cons, hframes, List.cons_append] at hfirst
      obtain ⟨rfl, -⟩ := List.cons.inj hfirst
      have hborder := (List.isChain_cons_cons.mp hseparated).1
      simpa [touches, Run.reachesFrame, hlast, hframes] using hborder

/-- Two frames in a row are in one run exactly if the first reaches the second. -/
theorem together_iff_reaches {before after : List F} (hcoherent : Coherent order rs)
    (hseparated : Separated order rs) (hlinked : ∀ r ∈ rs, r.Linked order)
    (hframes : rs.flatMap Run.frames = before ++ f :: g :: after) :
    (∃ r ∈ rs, f ∈ r.frames ∧ g ∈ r.frames) ↔ order.reaches f g = true := by
  induction rs generalizing before with
  | nil => simp at hframes
  | cons r rs ih =>
      have hpairwise := hcoherent.ascending.pairwise
      rw [List.flatMap_cons] at hframes hpairwise
      have hapart : ∀ x ∈ r.frames, x ∉ rs.flatMap Run.frames := by
        intro x hx hmem
        have hlt := (List.pairwise_append.mp hpairwise).2.2 x hx x hmem
        exact not_lt_of_lt hlt hlt
      have hlater {before : List F} (hrest : rs.flatMap Run.frames = before ++ f :: g :: after) :
          (∃ s ∈ r :: rs, f ∈ s.frames ∧ g ∈ s.frames) ↔ order.reaches f g = true := by
        have hf : f ∉ r.frames := fun hf => hapart f hf (by simp [hrest])
        have htail := ih hcoherent.tail hseparated.tail
          (fun s hs => hlinked s (List.mem_cons_of_mem r hs)) hrest
        rw [← htail]
        simp [hf]
      rcases List.append_eq_append_iff.mp hframes with ⟨mid, -, hrest⟩ | ⟨mid, hr, hmid⟩
      · exact hlater hrest
      · match mid with
        | [] => exact @hlater [] hmid.symm
        | [x] =>
            simp only [List.cons_append, List.nil_append, List.cons.injEq] at hmid
            obtain ⟨rfl, hrest⟩ := hmid
            have hlast : r.frames.getLast? = some f := by simp [hr]
            constructor
            · rintro ⟨s, hs, hfs, hgs⟩
              rcases List.mem_cons.mp hs with rfl | hs
              · exact absurd (hrest ▸ List.mem_cons_self) (hapart g hgs)
              · have hfr : f ∈ r.frames := List.mem_of_getLast? hlast
                exact absurd (List.mem_flatMap.mpr ⟨s, hs, hfs⟩) (hapart f hfr)
            · -- The border of the run is a gap, so `f` cannot reach the first frame after it.
              intro hreach
              have hgap := not_reaches_of_border hcoherent.tail hseparated hlast hrest.symm
              exact absurd hreach (Bool.eq_false_iff.mp hgap)
        | x :: y :: mid =>
            simp only [List.cons_append, List.cons.injEq] at hmid
            obtain ⟨rfl, rfl, -⟩ := hmid
            have hchain : (before ++ f :: g :: mid).IsChain fun f g => order.reaches f g = true :=
              hr ▸ hlinked r List.mem_cons_self
            have hreach := (List.isChain_cons_cons.mp (List.isChain_append.mp hchain).2.1).1
            exact iff_of_true ⟨r, List.mem_cons_self, by simp [hr], by simp [hr]⟩ hreach

omit [LawfulMediaTime T] in
/-- The runs are the maximal stretches in which each frame reaches the next. -/
theorem HasMaximalRuns.map_frames (hb : b.HasMaximalRuns) :
    b.runs.map Run.frames = b.toList.splitBy b.order.reaches := by
  have hwell := hb.isSeparated.coherent.wellFormed
  rw [toList, List.flatMap_def]
  symm
  apply List.splitBy_flatten
  · intro hnil
    obtain ⟨r, hr, hframes⟩ := List.mem_map.mp hnil
    exact (hwell r hr).frames_ne_nil hframes
  · intro fs hfs
    obtain ⟨r, hr, rfl⟩ := List.mem_map.mp hfs
    exact hb.linked r hr
  · rw [List.isChain_map]
    apply hb.isSeparated.separated.imp_of_mem_imp
    intro r s hr hs htouch
    have hrne := (hwell r hr).frames_ne_nil
    have hsne := (hwell s hs).frames_ne_nil
    refine ⟨hrne, hsne, ?_⟩
    simpa [touches, Run.reachesFrame, List.getLast?_eq_some_getLast hrne,
      List.head?_eq_some_head hsne] using htouch

end FrameBuffer

/-! ## Exact times -/

section Exact

variable {F : Type} [Frame F ExactTime]

theorem Run.Tight.eq_of_frames_eq {r s : Run F ExactTime} (hr : r.Tight) (hs : s.Tight)
    (hframes : r.frames = s.frames) : r = s := by
  obtain ⟨first, hfirst, hfirst_eq⟩ := hr.start_attained
  obtain ⟨first', hfirst', hfirst_eq'⟩ := hs.start_attained
  obtain ⟨last, hlast, hlast_eq⟩ := hr.stop_attained
  obtain ⟨last', hlast', hlast_eq'⟩ := hs.stop_attained
  have hstart : r.start = s.start := by
    apply ExactTime.antisymm
    · exact hfirst_eq' ▸ hr.start_le first' (hframes ▸ hfirst')
    · exact hfirst_eq ▸ hs.start_le first (hframes ▸ hfirst)
  have hstop : r.stop = s.stop := by
    apply ExactTime.antisymm
    · exact hlast_eq ▸ hs.le_stop last (hframes ▸ hlast)
    · exact hlast_eq' ▸ hr.le_stop last' (hframes ▸ hlast')
  cases r
  cases s
  simp_all

namespace FrameBuffer

theorem HasMaximalRuns.eq {b c : FrameBuffer F ExactTime} (hb : b.HasMaximalRuns)
    (hc : c.HasMaximalRuns) (horder : b.order = c.order) (hlist : b.toList = c.toList) : b = c := by
  have hframes : b.runs.map Run.frames = c.runs.map Run.frames := by
    rw [hb.map_frames, hc.map_frames, horder, hlist]
  have hlength : b.runs.length = c.runs.length := by
    simpa using congrArg List.length hframes
  have hruns : b.runs = c.runs := by
    apply List.ext_getElem hlength
    intro i hi hi'
    apply (hb.tight _ (List.getElem_mem hi)).eq_of_frames_eq (hc.tight _ (List.getElem_mem hi'))
    have hith := List.getElem_of_eq hframes (by simpa using hi)
    rwa [List.getElem_map, List.getElem_map] at hith
  cases b
  cases c
  simp_all

theorem reach_le_reach_of_ends {order : FrameOrder} {fs : List F}
    (hkeys : fs.Pairwise fun f g => order.key f < order.key g)
    (hends : fs.Pairwise fun f g =>
      order.key f + Frame.duration f ≤ order.key g + Frame.duration g) :
    ∀ f ∈ fs, ∀ g ∈ fs, order.key g < order.key f → order.reach g ≤ order.reach f := by
  intro f hf g hg
  apply List.Pairwise.forall_of_forall_of_flip
    (R := fun g f => order.key g < order.key f → order.reach g ≤ order.reach f) _ _ _ hg hf
  · intro f _ hlt
    exact absurd hlt (not_lt_of_lt hlt)
  · exact hends.imp fun hle _ => ExactTime.add_le_add_right hle _
  · exact hkeys.imp fun hlt hgt => absurd hlt (not_lt_of_lt hgt)

/-- Frames with increasing keys and ends, added to an empty buffer in any order, give one and the
same buffer. It holds them in the order of their keys, neighbours are in one run exactly if the
first reaches the second, and every run spans just its frames. -/
theorem addAll_eq_of_perm (order : FrameOrder) {fs gs : List F}
    (htimed : ∀ f ∈ fs, Frame.IsTimed f)
    (hkeys : fs.Pairwise fun f g => order.key f < order.key g)
    (hends : fs.Pairwise fun f g =>
      order.key f + Frame.duration f ≤ order.key g + Frame.duration g)
    (hgs : gs.Perm fs) :
    (empty order).addAll gs = (empty order).addAll fs ∧
    ((empty order).addAll gs).toList = fs ∧
    (∀ before f g after, fs = before ++ f :: g :: after →
      ((∃ r ∈ ((empty order).addAll gs).runs, f ∈ r.frames ∧ g ∈ r.frames) ↔
        order.key g ≤ order.key f + Frame.duration f + maxGap)) ∧
    ∀ r ∈ ((empty order).addAll gs).runs, r.Tight := by
  have hreach := reach_le_reach_of_ends hkeys hends
  have hapart : fs.Pairwise order.Apart := hkeys.imp Or.inl
  have hbuilt {hs : List F} (hhs : hs.Perm fs) :
      ((empty order).addAll hs).HasMaximalRuns ∧ ((empty order).addAll hs).order = order ∧
        ((empty order).addAll hs).toList = fs := by
    obtain ⟨hruns, horder, hperm⟩ := hasMaximalRuns_addAll order
      (fun f hf => htimed f (hhs.subset hf)) (hhs.symm.pairwise hapart fun h => h.symm)
      fun f hf g hg => hreach f (hhs.subset hf) g (hhs.subset hg)
    refine ⟨hruns, horder, (hperm.trans hhs).eq_of_pairwise ?_ ?_ hkeys⟩
    · intro f g _ _ hfg hgf
      exact absurd hfg (not_lt_of_lt hgf)
    · have hpairwise := hruns.isSeparated.coherent.ascending.pairwise
      rw [horder] at hpairwise
      exact hpairwise
  obtain ⟨hruns, horder, hlist⟩ := hbuilt hgs
  obtain ⟨hruns', horder', hlist'⟩ := hbuilt (List.Perm.refl fs)
  refine ⟨hruns.eq hruns' (horder.trans horder'.symm) (hlist.trans hlist'.symm), hlist, ?_,
    hruns.tight⟩
  intro before f g after hsplit
  have htogether := together_iff_reaches hruns.isSeparated.coherent hruns.isSeparated.separated
    hruns.linked (hlist.trans hsplit)
  rw [horder] at htogether
  exact htogether.trans FrameOrder.reaches_iff

/-- A frame in tenths of a second, decoded before it is shown. -/
def delayed (dts duration pts : ℚ) : EncodedFrame ExactTime where
  pts := .finite (pts / 10)
  dts := .finite (dts / 10)
  duration := .finite (duration / 10)
  isKeyFrame := true
  stream := .video 0 "h264" 1 1
  data := []
  encryption := none

/-- Two runs: the second frame starts in the gap tolerance after the first, the third does not. -/
def delayedFrames : List (EncodedFrame ExactTime) :=
  [delayed 0 1 4, delayed 2 2 2, delayed 6 0 9, delayed 7 1 6]

theorem addAll_eq_of_perm_delayedFrames :
    ((∀ f ∈ delayedFrames, Frame.IsTimed f) ∧
      (delayedFrames.Pairwise fun f g => FrameOrder.dts.key f < FrameOrder.dts.key g) ∧
      (delayedFrames.Pairwise fun f g =>
        FrameOrder.dts.key f + Frame.duration f ≤ FrameOrder.dts.key g + Frame.duration g) ∧
      delayedFrames.reverse.Perm delayedFrames) ∧
    (empty .dts).addAll delayedFrames.reverse = (empty .dts).addAll delayedFrames ∧
    ((empty .dts).addAll delayedFrames.reverse).toList = delayedFrames ∧
    (∀ before f g after, delayedFrames = before ++ f :: g :: after →
      ((∃ r ∈ ((empty .dts).addAll delayedFrames.reverse).runs, f ∈ r.frames ∧ g ∈ r.frames) ↔
        FrameOrder.dts.key g ≤ FrameOrder.dts.key f + Frame.duration f + maxGap)) ∧
    ∀ r ∈ ((empty .dts).addAll delayedFrames.reverse).runs, r.Tight := by
  have htimed : ∀ f ∈ delayedFrames, Frame.IsTimed f := by
    intro f hf
    have hall : ∀ f ∈ delayedFrames, isFinite (Frame.pts f) = true ∧
        isFinite (Frame.dts f) = true ∧ isFinite (Frame.duration f) = true ∧
        0 ≤ Frame.duration f := by decide +kernel
    obtain ⟨hpts, hdts, hduration, hnonneg⟩ := hall f hf
    exact ⟨hpts, hdts, hduration, hnonneg⟩
  have hkeys : delayedFrames.Pairwise
      fun f g => FrameOrder.dts.key f < FrameOrder.dts.key g := by decide +kernel
  have hends : delayedFrames.Pairwise fun f g =>
      FrameOrder.dts.key f + Frame.duration f ≤ FrameOrder.dts.key g + Frame.duration g := by
    decide +kernel
  have hperm := List.reverse_perm delayedFrames
  exact ⟨⟨htimed, hkeys, hends, hperm⟩, addAll_eq_of_perm .dts htimed hkeys hends hperm⟩

end FrameBuffer

end Exact

end MediaPipeline
