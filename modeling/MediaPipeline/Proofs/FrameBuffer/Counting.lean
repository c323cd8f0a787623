import MediaPipeline.Proofs.FrameBuffer.LatestKeyFrame
import MediaPipeline.Proofs.Time.Differences

/-!
# Counting the frames between two times

The count is put together run by run from differences of positions. Up to an end that is a number it
is the number of frames strictly inside, and no difference is below zero. An end that is not a
number is found in front of all frames, so the first difference is below zero if the run that
reaches the start has a frame in front of it.
-/

namespace MediaPipeline

open MediaTime LawfulMediaTime LawfulDifferences

variable {F T : Type} [Frame F T] [MediaTime T]

namespace FrameOrder

def isBetween (order : FrameOrder) (start stop : T) (f : F) : Bool :=
  decide (start < order.key f) && decide (order.key f < stop)

end FrameOrder

/-- The run has a frame before `t` and one at `t` or later. -/
def Run.Straddles (order : FrameOrder) (t : T) (r : Run F T) : Prop :=
  (∃ f ∈ r.frames, order.key f < t) ∧ ∃ f ∈ r.frames, t ≤ order.key f

variable {order : FrameOrder} {fs : List F} {rs : List (Run F T)} {start stop t : T} {n : Nat}

namespace FrameOrder

theorem countP_isBetween_eq_zero (h : ∀ f ∈ fs, start < order.key f → ¬ order.key f < stop) :
    fs.countP (order.isBetween start stop) = 0 := by
  refine List.countP_eq_zero.mpr fun f hf => ?_
  simpa [isBetween] using h f hf

theorem countP_isBetween_eq_length (h : ∀ f ∈ fs, start < order.key f ∧ order.key f < stop) :
    fs.countP (order.isBetween start stop) = fs.length := by
  refine List.countP_eq_length.mpr fun f hf => ?_
  simpa [isBetween] using h f hf

section Window

variable [LawfulMediaTime T] {below mid past : List F}

/-- Two times split the frames in three. -/
theorem Ascending.exists_window (hasc : order.Ascending fs) (hstop : IsNumber stop)
    (hlt : start < stop) :
    ∃ below mid past, fs = below ++ (mid ++ past) ∧ order.Border start below (mid ++ past) ∧
      order.Border stop (below ++ mid) past := by
  obtain ⟨below, rest, rfl, hborder⟩ := hasc.exists_border (isNumber_of_le (le_of_lt hlt)).1
  have hrest : order.Ascending rest := hasc.of_sublist (List.sublist_append_right below rest)
  obtain ⟨mid, past, rfl, hborder'⟩ := hrest.exists_border hstop
  refine ⟨below, mid, past, rfl, hborder, fun g hg => ?_, hborder'.rest⟩
  rcases List.mem_append.mp hg with hg | hg
  · exact lt_trans (hborder.below g hg) hlt
  · exact hborder'.below g hg

theorem countP_isBetween_window (hborder : order.Border start below (mid ++ past))
    (hend : order.Border stop (below ++ mid) past) :
    (below ++ (mid ++ past)).countP (order.isBetween start stop) =
      mid.countP (order.isBetween start stop) := by
  have hbelow : below.countP (order.isBetween start stop) = 0 :=
    countP_isBetween_eq_zero fun g hg hsg => absurd hsg (not_lt_of_lt (hborder.below g hg))
  have hpast : past.countP (order.isBetween start stop) = 0 :=
    countP_isBetween_eq_zero fun g hg _ hgs => not_le_of_lt hgs (hend.rest g hg)
  simp [List.countP_append, hbelow, hpast]

theorem Border.any_le (hend : order.Border stop below past) :
    ((below ++ past).any fun f => decide (stop ≤ order.key f)) =
      (below.length != (below ++ past).length) := by
  have hbelow : (below.any fun f => decide (stop ≤ order.key f)) = false :=
    List.any_eq_false.mpr fun g hg => by simpa using not_le_of_lt (hend.below g hg)
  rw [List.any_append, hbelow]
  cases past with
  | nil => simp
  | cons g past => simp [hend.rest g List.mem_cons_self]

end Window

/-- Searching for what is not a number ends in front of all frames. -/
theorem lowerBound_of_not_isNumber [LawfulMediaTime T] [LawfulDifferences T]
    (ht : ¬ IsNumber t) : order.lowerBound fs t = 0 := by
  have hnone : ∀ g ∈ fs.reverse, decide (order.key g < t) = false := fun g _ =>
    decide_eq_false fun hlt => ht (isNumber_of_le (le_of_lt hlt)).2
  have hback : order.pastLastBefore fs t = 0 := by
    rw [pastLastBefore, List.findIdx_eq_length.mpr hnone, List.length_reverse, Nat.sub_self]
  unfold lowerBound
  split
  · next first last _ _ =>
    have hdir : ¬ t - order.key first < order.key last - t := fun hlt =>
      ht (isNumber_of_sub (isNumber_of_le (le_of_lt hlt)).2).2
    rw [if_neg hdir, hback]
  · rfl

end FrameOrder

namespace FrameBuffer

variable [LawfulMediaTime T] {b : FrameBuffer F T}

/-! ## One run -/

theorem minus?_add (m n : Nat) : minus? (m + n) m = some n := by
  simp [minus?]

/-- What is strictly between two times lies between the two borders, but for a frame at the first
time itself. -/
theorem countInRun?_eq (hasc : order.Ascending fs) (hstop : IsNumber stop) (hlt : start < stop) :
    countInRun? order start stop n fs =
      some (n + fs.countP (order.isBetween start stop),
        fs.any fun f => decide (stop ≤ order.key f)) := by
  obtain ⟨below, mid, past, rfl, hborder, hend⟩ := hasc.exists_window hstop hlt
  have hs := hborder.lowerBound
  have he := hend.lowerBound
  have hgoesOn := hend.any_le
  rw [List.append_assoc, List.length_append] at he hgoesOn
  unfold countInRun?
  simp only [hs, he, minus?_add, hgoesOn, FrameOrder.countP_isBetween_window hborder hend]
  cases mid with
  | nil => simp
  | cons g mid =>
      have hg : start ≤ order.key g := hborder.rest g List.mem_cons_self
      have hgs : order.key g < stop := hend.below g (by simp)
      have hmid : mid.countP (order.isBetween start stop) = mid.length := by
        have htail := hasc.of_sublist (List.sublist_append_right below _)
        refine FrameOrder.countP_isBetween_eq_length fun h hh => ⟨?_, hend.below h (by simp [hh])⟩
        have hmem : h ∈ mid ++ past := List.mem_append_left _ hh
        exact lt_of_le_of_lt hg (List.rel_of_pairwise_cons htail.pairwise hmem)
      by_cases hat : order.key g == start
      · have hnot : ¬ start < order.key g := fun hsg => not_le_of_lt hsg (beq_iff.mp hat).1
        have hcount : minus? (n + (mid.length + 1)) 1 = some (n + mid.length) := by
          simp [minus?]
        simp [FrameOrder.isBetween, hnot, hmid, hat, hcount]
      · have hsg : start < order.key g :=
          lt_iff.mpr ⟨hg, fun hle => hat (beq_iff.mpr ⟨hle, hg⟩)⟩
        simp [FrameOrder.isBetween, hsg, hgs, hmid, hat]

/-- For an end that is not a number, all frames in front of the start are taken away from zero. -/
theorem countInRun?_of_not_isNumber [LawfulDifferences T] {below rest : List F}
    (hborder : order.Border start below rest) (hne : below ++ rest ≠ [])
    (hstop : ¬ IsNumber stop) :
    countInRun? order start stop n (below ++ rest) =
      if below = [] then some (n, true) else none := by
  unfold countInRun?
  simp only [hborder.lowerBound, FrameOrder.lowerBound_of_not_isNumber hstop]
  cases below with
  | nil =>
      have hlength : (0 : Nat) ≠ rest.length := fun h =>
        hne (List.eq_nil_of_length_eq_zero h.symm)
      simp [minus?, hlength]
  | cons g below => simp [minus?]

/-! ## All runs -/

theorem countInRuns?_eq (hasc : order.Ascending (rs.flatMap Run.frames)) (hstop : IsNumber stop)
    (hlt : start < stop) :
    countInRuns? order start stop n rs =
      some (n + (rs.flatMap Run.frames).countP (order.isBetween start stop)) := by
  induction rs generalizing n with
  | nil => rfl
  | cons r rs ih =>
      rw [List.flatMap_cons] at hasc
      have hr := hasc.of_sublist (List.sublist_append_left r.frames _)
      have hrs := hasc.of_sublist (List.sublist_append_right r.frames _)
      rw [countInRuns?, countInRun?_eq hr hstop hlt, List.flatMap_cons, List.countP_append]
      by_cases hany : r.frames.any fun f => decide (stop ≤ order.key f)
      · have hlater : (rs.flatMap Run.frames).countP (order.isBetween start stop) = 0 := by
          obtain ⟨f, hf, hle⟩ := List.any_eq_true.mp hany
          refine FrameOrder.countP_isBetween_eq_zero fun g hg _ => ?_
          have hfg := (List.pairwise_append.mp hasc.pairwise).2.2 f hf g hg
          exact not_lt_of_lt (lt_of_le_of_lt (of_decide_eq_true hle) hfg)
        simp [hany, hlater]
      · simp [hany, ih hrs, Nat.add_assoc]

/-- The runs that are passed over have nothing between the two times. -/
theorem countInRuns?_dropWhile_eq (hasc : order.Ascending (rs.flatMap Run.frames))
    (hstop : IsNumber stop) (hnot : ¬ stop ≤ start) :
    countInRuns? order start stop 0 (rs.dropWhile (! ·.endsFrom order start)) =
      some ((rs.flatMap Run.frames).countP (order.isBetween start stop)) := by
  induction rs with
  | nil => rfl
  | cons r rs ih =>
      have hall := hasc
      rw [List.flatMap_cons] at hasc
      have hr := hasc.of_sublist (List.sublist_append_left r.frames _)
      have hrs := hasc.of_sublist (List.sublist_append_right r.frames _)
      by_cases hend : r.endsFrom order start
      · obtain ⟨f, -, hle⟩ := (endsFrom_iff hr).mp hend
        have hlt := lt_of_not_le (isNumber_of_le hle).1 hstop hnot
        simpa [List.dropWhile_cons, hend] using countInRuns?_eq (n := 0) hall hstop hlt
      · have hnone : r.frames.countP (order.isBetween start stop) = 0 := by
          refine FrameOrder.countP_isBetween_eq_zero fun f hf hsf _ => ?_
          exact hend ((endsFrom_iff hr).mpr ⟨f, hf, le_of_lt hsf⟩)
        simpa [List.dropWhile_cons, hend, List.countP_append, hnone] using ih hrs

theorem countBetween?_eq (hasc : b.order.Ascending b.toList) (hstop : IsNumber stop) :
    b.countBetween? start stop = some (b.toList.countP (b.order.isBetween start stop)) := by
  unfold countBetween?
  split_ifs with hle
  · have hnone : b.toList.countP (b.order.isBetween start stop) = 0 :=
      FrameOrder.countP_isBetween_eq_zero fun f _ hsf hfs =>
        not_le_of_lt (lt_trans hsf hfs) hle
    rw [hnone]
  · exact countInRuns?_dropWhile_eq hasc hstop hle

/-! ## An end that is not a number -/

/-- Only the first run that reaches the start can have a frame on either side of it. -/
theorem countInRuns?_dropWhile_of_not_isNumber [LawfulDifferences T] (start : T)
    (hne : ∀ r ∈ rs, r.frames ≠ []) (hasc : order.Ascending (rs.flatMap Run.frames))
    (hstop : ¬ IsNumber stop) :
    ((∃ r ∈ rs, r.Straddles order start) →
      countInRuns? order start stop 0 (rs.dropWhile (! ·.endsFrom order start)) = none) ∧
    ((∀ r ∈ rs, ¬ r.Straddles order start) →
      countInRuns? order start stop 0 (rs.dropWhile (! ·.endsFrom order start)) = some 0) := by
  induction rs with
  | nil => simp [countInRuns?]
  | cons r rs ih =>
      obtain ⟨hr, hlater⟩ := List.forall_mem_cons.mp hne
      rw [List.flatMap_cons] at hasc
      have hrun := hasc.of_sublist (List.sublist_append_left r.frames _)
      by_cases hend : r.endsFrom order start
      · obtain ⟨last, hlast, hle⟩ := (endsFrom_iff hrun).mp hend
        obtain ⟨below, rest, hsplit, hborder⟩ := hrun.exists_border (isNumber_of_le hle).1
        have hafter : ∀ s ∈ rs, ¬ s.Straddles order start := by
          rintro s hs ⟨⟨f, hf, hlt⟩, -⟩
          have hlf := (List.pairwise_append.mp hasc.pairwise).2.2 last hlast f
            (List.mem_flatMap_of_mem hs hf)
          exact not_le_of_lt hlt (le_trans hle (le_of_lt hlf))
        have hcount := countInRun?_of_not_isNumber (n := 0) hborder (hsplit ▸ hr) hstop
        rw [← hsplit] at hcount
        cases below with
        | nil =>
            have hnot : ¬ r.Straddles order start := by
              rintro ⟨⟨f, hf, hlt⟩, -⟩
              exact not_le_of_lt hlt (hborder.rest f (by simpa [hsplit] using hf))
            refine ⟨?_, fun _ => by simp [hend, countInRuns?, hcount]⟩
            rintro ⟨s, hs, hstraddles⟩
            rcases List.mem_cons.mp hs with rfl | hs
            · exact absurd hstraddles hnot
            · exact absurd hstraddles (hafter s hs)
        | cons g below =>
            have hg : g ∈ r.frames := by simp [hsplit]
            have hstraddles : r.Straddles order start :=
              ⟨⟨g, hg, hborder.below g List.mem_cons_self⟩, last, hlast, hle⟩
            refine ⟨fun _ => by simp [hend, countInRuns?, hcount], ?_⟩
            exact fun hnone => absurd hstraddles (hnone r List.mem_cons_self)
      · have hnot : ¬ r.Straddles order start := fun hr => hend ((endsFrom_iff hrun).mpr hr.2)
        have htail := hasc.of_sublist (List.sublist_append_right r.frames _)
        simpa [List.dropWhile_cons, hend, hnot] using ih hlater htail

theorem countBetween?_of_no_numbers (hnone : ∀ f ∈ b.toList, ¬ IsNumber (b.order.key f)) :
    b.countBetween? start stop = some 0 ∧
      b.toList.countP (b.order.isBetween start stop) = 0 ∧
      ∀ r ∈ b.runs, ¬ r.Straddles b.order start := by
  have hdrop : b.runs.dropWhile (! ·.endsFrom b.order start) = [] :=
    List.dropWhile_eq_nil_iff.mpr fun r hr => by simp [endsFrom_eq_false hr hnone]
  refine ⟨?_, ?_, ?_⟩
  · rw [countBetween?, hdrop]
    exact ite_self _
  · exact FrameOrder.countP_isBetween_eq_zero fun f hf hlt =>
      absurd (isNumber_of_le (le_of_lt hlt)).2 (hnone f hf)
  · rintro r hr ⟨-, f, hf, hle⟩
    exact hnone f (List.mem_flatMap_of_mem hr hf) (isNumber_of_le hle).2

/-- The count is right whenever its end is a number, and also if no run has frames on either side of
the start. Otherwise a difference on the way is below zero. -/
theorem count_exact_iff [LawfulDifferences T] (hb : b.Sorted) (start stop : T) :
    (b.countBetween? start stop = some (b.toList.countP (b.order.isBetween start stop)) ↔
      IsNumber stop ∨ ∀ r ∈ b.runs, ¬ r.Straddles b.order start) ∧
    (b.countBetween? start stop = none ↔
      ¬ IsNumber stop ∧ ∃ r ∈ b.runs, r.Straddles b.order start) := by
  rcases FrameOrder.ascending_or_eq_singleton hb.2 with hasc | ⟨f, hlist, hf⟩
  · by_cases hstop : IsNumber stop
    · simp [countBetween?_eq hasc hstop, hstop]
    · have hnot : ¬ stop ≤ start := fun hle => hstop (isNumber_of_le hle).1
      have hzero : b.toList.countP (b.order.isBetween start stop) = 0 :=
        FrameOrder.countP_isBetween_eq_zero fun f _ _ hlt => hstop (isNumber_of_le (le_of_lt hlt)).2
      obtain ⟨hnone, hsome⟩ :=
        countInRuns?_dropWhile_of_not_isNumber start hb.1 hasc hstop
      rw [countBetween?, if_neg hnot, hzero]
      by_cases hstraddles : ∃ r ∈ b.runs, r.Straddles b.order start
      · simp [hnone hstraddles, hstop, hstraddles]
      · have hall : ∀ r ∈ b.runs, ¬ r.Straddles b.order start := by simpa using hstraddles
        simpa [hsome hall, hstop] using hall
  · have hnumber : ∀ g ∈ b.toList, ¬ IsNumber (b.order.key g) := by simpa [hlist] using hf
    obtain ⟨hcount, hzero, hall⟩ := countBetween?_of_no_numbers hnumber
    rw [hcount, hzero]
    refine ⟨iff_of_true rfl (Or.inr hall), iff_of_false (by simp) ?_⟩
    rintro ⟨-, r, hr, hstraddles⟩
    exact hall r hr hstraddles

/-- A frame at the start is left out, and the gap between the scenes is passed. -/
theorem count_exact_iff_twoScenes :
    twoScenes.Sorted ∧ twoScenes.countBetween? 0 6 = some 2 ∧
      twoScenes.countBetween? negInf posInf = some 4 := by
  have hb : twoScenes.Sorted := by decide +kernel
  have hsix : IsNumber (6 : Float) := show (6 : Float) ≤ 6 by decide +kernel
  have hlast : IsNumber (posInf : Float) := show (posInf : Float) ≤ posInf by decide +kernel
  have hinner := (count_exact_iff hb 0 6).1.mpr (Or.inl hsix)
  have hall := (count_exact_iff hb negInf posInf).1.mpr (Or.inl hlast)
  have htwo : twoScenes.toList.countP (twoScenes.order.isBetween 0 6) = 2 := by decide +kernel
  have hfour : twoScenes.toList.countP (twoScenes.order.isBetween negInf posInf) = 4 := by
    decide +kernel
  exact ⟨hb, htwo ▸ hinner, hfour ▸ hall⟩

/-- Up to what is not a number there is no frame to count, but from the middle of the first scene
the count goes below zero. -/
theorem twoScenes_count_below_zero :
    twoScenes.Sorted ∧ twoScenes.toList.countP (twoScenes.order.isBetween 0.5 (0 / 0)) = 0 ∧
      twoScenes.countBetween? 0.5 (0 / 0) = none := by
  decide +kernel

end FrameBuffer

end MediaPipeline
