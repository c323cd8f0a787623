import MediaPipeline.FrameBuffer.Basic
import MediaPipeline.Proofs.FrameBuffer.Search

/-!
# Adding a frame to a sorted buffer

The run for a new frame is chosen by the end of the run's last frame, not by the keys. As long as
the frame does not overtake the first frame of the run after it, adding is the update of a map.
When it does overtake that frame, the buffer is no longer sorted afterwards.
-/

namespace MediaPipeline

open MediaTime LawfulMediaTime

variable {F T : Type} [Frame F T] [MediaTime T]

/-- A run that holds a frame, and does not end before it starts. -/
structure Run.WellFormed (r : Run F T) : Prop where
  frames_ne_nil : r.frames ≠ []
  start_le_stop : r.start ≤ r.stop

namespace FrameBuffer

variable {order : FrameOrder} {f : F} {r : Run F T} {rs : List (Run F T)}

/-- The first run that reaches `f` is followed by a run that begins at the key of `f` or before. -/
def overtakes (order : FrameOrder) (f : F) : List (Run F T) → Bool
  | r :: next :: rs =>
    if r.reachesFrame order f then
      next.frames.head?.any fun g => decide (order.key g ≤ order.key f)
    else overtakes order f (next :: rs)
  | _ => false

/-! ## Merging -/

@[simp] theorem flatMap_mergeFrom :
    (mergeFrom order r rs).flatMap Run.frames = r.frames ++ rs.flatMap Run.frames := by
  induction rs generalizing r with
  | nil => simp [mergeFrom]
  | cons next rs ih =>
      by_cases htouch : touches order r next
      · simp [mergeFrom, htouch, ih, Run.append]
      · simp [mergeFrom, htouch, ih]

@[simp] theorem flatMap_mergeRuns :
    (mergeRuns order rs).flatMap Run.frames = rs.flatMap Run.frames := by
  cases rs with
  | nil => rfl
  | cons r rs => simp [mergeRuns]

theorem forall_mem_mergeFrom {P : Run F T → Prop}
    (happend : ∀ r s, touches order r s = true → P r → P s → P (r.append s)) (hr : P r)
    (hrs : ∀ s ∈ rs, P s) : ∀ s ∈ mergeFrom order r rs, P s := by
  induction rs generalizing r with
  | nil => simpa [mergeFrom] using hr
  | cons next rs ih =>
      obtain ⟨hnext, hlater⟩ := List.forall_mem_cons.mp hrs
      by_cases htouch : touches order r next
      · simpa [mergeFrom, htouch] using ih (happend r next htouch hr hnext) hlater
      · simpa [mergeFrom, htouch] using ⟨hr, ih hnext hlater⟩

theorem forall_mem_mergeRuns {P : Run F T → Prop}
    (happend : ∀ r s, touches order r s = true → P r → P s → P (r.append s))
    (hrs : ∀ s ∈ rs, P s) : ∀ s ∈ mergeRuns order rs, P s := by
  cases rs with
  | nil => exact hrs
  | cons r rs =>
      obtain ⟨hr, hlater⟩ := List.forall_mem_cons.mp hrs
      exact forall_mem_mergeFrom happend hr hlater

/-! ## Choosing a run -/

theorem forall_mem_place {P : Run F T → Prop} (hsingleton : P (.singleton f))
    (hinsert : ∀ r ∈ rs, r.reachesFrame order f = true → r.reachedBy order f = true → P r →
      P (r.insert order f)) (hrs : ∀ s ∈ rs, P s) :
    ∀ s ∈ place order f rs, P s := by
  induction rs with
  | nil => simpa [place] using hsingleton
  | cons r rs ih =>
      obtain ⟨hr, hlater⟩ := List.forall_mem_cons.mp hrs
      by_cases hreach : r.reachesFrame order f
      · by_cases hback : r.reachedBy order f
        · have hgrown := hinsert r List.mem_cons_self hreach hback hr
          simpa [place, hreach, hback] using ⟨hgrown, hlater⟩
        · simpa [place, hreach, hback] using ⟨hsingleton, hr, hlater⟩
      · have htail := ih (fun s hs => hinsert s (List.mem_cons_of_mem r hs)) hlater
        simpa [place, hreach] using ⟨hr, htail⟩

/-- Runs that hold frames whose keys increase strictly across their borders. -/
structure Laid (order : FrameOrder) (rs : List (Run F T)) : Prop where
  frames_ne_nil : ∀ r ∈ rs, r.frames ≠ []
  keyed : ∀ g ∈ rs.flatMap Run.frames, order.IsKeyed g
  ascending : order.Ascending (rs.flatMap Run.frames)

theorem Laid.tail (hrs : Laid order (r :: rs)) : Laid order rs where
  frames_ne_nil s hs := hrs.frames_ne_nil s (List.mem_cons_of_mem r hs)
  keyed g hg := hrs.keyed g (by simpa using Or.inr hg)
  ascending := hrs.ascending.of_sublist (by simp)

theorem Laid.head_ascending (hrs : Laid order (r :: rs)) : order.Ascending r.frames :=
  hrs.ascending.of_sublist (by simp)

variable [LawfulMediaTime T]

/-- Runs of timed frames, each well formed, whose keys increase strictly across their borders. -/
structure Coherent (order : FrameOrder) (rs : List (Run F T)) : Prop where
  wellFormed : ∀ r ∈ rs, r.WellFormed
  timed : ∀ g ∈ rs.flatMap Run.frames, Frame.IsTimed g
  ascending : order.Ascending (rs.flatMap Run.frames)

theorem Coherent.laid (hrs : Coherent order rs) : Laid order rs where
  frames_ne_nil s hs := (hrs.wellFormed s hs).frames_ne_nil
  keyed g hg := (hrs.timed g hg).isKeyed order
  ascending := hrs.ascending

omit [LawfulMediaTime T] in
theorem Coherent.tail (hrs : Coherent order (r :: rs)) : Coherent order rs where
  wellFormed s hs := hrs.wellFormed s (List.mem_cons_of_mem r hs)
  timed g hg := hrs.timed g (by simpa using Or.inr hg)
  ascending := hrs.ascending.of_sublist (by simp)

theorem Laid.lt_of_not_reachesFrame (hrs : Laid order (r :: rs)) (hf : order.IsKeyed f)
    (hreach : r.reachesFrame order f = false) : ∀ g ∈ r.frames, order.key g < order.key f := by
  have hne := hrs.frames_ne_nil r List.mem_cons_self
  have hlast := List.getLast?_eq_some_getLast hne
  have hkeyed : order.IsKeyed (r.frames.getLast hne) :=
    hrs.keyed _ (by simp)
  have hnot : order.reaches (r.frames.getLast hne) f = false := by
    simpa [Run.reachesFrame, hlast] using hreach
  exact hrs.head_ascending.forall_lt_of_getLast? hlast (FrameOrder.lt_of_not_reaches hkeyed hf hnot)

theorem Laid.lt_of_not_reachedBy (hrs : Laid order (r :: rs)) (hf : order.IsKeyed f)
    (hback : r.reachedBy order f = false) :
    ∀ g ∈ (r :: rs).flatMap Run.frames, order.key f < order.key g := by
  have hne := hrs.frames_ne_nil r List.mem_cons_self
  obtain ⟨first, fs, hfirst⟩ := List.exists_cons_of_ne_nil hne
  have hasc := hrs.ascending
  rw [List.flatMap_cons, hfirst, List.cons_append] at hasc ⊢
  have hkeyed : order.IsKeyed first := hrs.keyed first (by simp [hfirst])
  have hnot : order.reaches f first = false := by simpa [Run.reachedBy, hfirst] using hback
  exact hasc.forall_lt (FrameOrder.lt_of_not_reaches hf hkeyed hnot)

/-- A run that reaches a frame which does not overtake is followed by later frames only. -/
theorem Laid.lt_of_not_overtakes (hrs : Laid order (r :: rs)) (hf : order.IsKeyed f)
    (hreach : r.reachesFrame order f = true) (hover : overtakes order f (r :: rs) = false) :
    ∀ g ∈ rs.flatMap Run.frames, order.key f < order.key g := by
  cases rs with
  | nil => simp
  | cons next rs =>
      have hne := hrs.tail.frames_ne_nil next List.mem_cons_self
      obtain ⟨first, fs, hfirst⟩ := List.exists_cons_of_ne_nil hne
      have hasc := hrs.tail.ascending
      rw [List.flatMap_cons, hfirst, List.cons_append] at hasc ⊢
      have hnot : ¬ order.key first ≤ order.key f := by
        simpa [overtakes, hreach, hfirst] using hover
      have hnumber := hasc.isNumber first List.mem_cons_self
      exact hasc.forall_lt (lt_of_not_le hf.isNumber hnumber hnot)

omit [LawfulMediaTime T] in
theorem overtakes_cons_of_not_reachesFrame (hreach : r.reachesFrame order f = false) :
    overtakes order f (r :: rs) = overtakes order f rs := by
  cases rs with
  | nil => rfl
  | cons next rs => simp [overtakes, hreach]

/-- As long as nothing is overtaken, placing a frame is the update of a map. -/
theorem flatMap_place (hrs : Laid order rs) (hf : order.IsKeyed f)
    (hover : overtakes order f rs = false) :
    (place order f rs).flatMap Run.frames = order.update f (rs.flatMap Run.frames) := by
  induction rs with
  | nil => rfl
  | cons r rs ih =>
      by_cases hreach : r.reachesFrame order f
      · by_cases hback : r.reachedBy order f
        · -- `f` goes into the first run, and no later run has a frame to give way to it.
          have hlater := hrs.lt_of_not_overtakes hf hreach hover
          have hinsert := hrs.head_ascending.insertFrame_eq hf.isNumber
          simp only [place, hreach, hback, if_true, List.flatMap_cons, Run.insert, hinsert]
          exact (FrameOrder.update_append_of_lt_forall hlater).symm
        · have hlater := hrs.lt_of_not_reachedBy hf (Bool.eq_false_iff.mpr hback)
          simp only [place, hreach, hback, if_true, List.flatMap_cons, Run.singleton]
          exact (FrameOrder.update_of_forall_lt hlater).symm
      · have hnot := Bool.eq_false_iff.mpr hreach
        have hbefore := hrs.lt_of_not_reachesFrame hf hnot
        rw [overtakes_cons_of_not_reachesFrame hnot] at hover
        simp only [place, hnot, List.flatMap_cons]
        rw [FrameOrder.update_append_of_forall_lt hbefore, ← ih hrs.tail hover]
        rfl

/-- A frame that overtakes goes into the run in front of one that begins at its key or before. -/
theorem not_pairwise_place_of_overtakes (hrs : Laid order rs) (hf : order.IsKeyed f)
    (hover : overtakes order f rs = true) :
    ¬ ((place order f rs).flatMap Run.frames).Pairwise
      fun g h => order.key g < order.key h := by
  induction rs with
  | nil => simp [overtakes] at hover
  | cons r rs ih =>
      by_cases hreach : r.reachesFrame order f
      · cases rs with
        | nil => simp [overtakes] at hover
        | cons next rs =>
            have hne := hrs.tail.frames_ne_nil next List.mem_cons_self
            obtain ⟨first, fs, hfirst⟩ := List.exists_cons_of_ne_nil hne
            have hle : order.key first ≤ order.key f := by
              simpa [overtakes, hreach, hfirst] using hover
            have hback : r.reachedBy order f = true := by
              -- A run in front of all of `f` would have the later runs behind `f` too.
              by_contra hnot
              have hlater := hrs.lt_of_not_reachedBy hf (Bool.eq_false_iff.mpr hnot)
              exact not_le_of_lt (hlater first (by simp [hfirst])) hle
            have hinsert := hrs.head_ascending.insertFrame_eq hf.isNumber
            simp only [place, hreach, hback, if_true, List.flatMap_cons, Run.insert, hinsert]
            intro hpairwise
            have hlt := (List.pairwise_append.mp hpairwise).2.2 f (by simp [FrameOrder.update])
              first (by simp [hfirst])
            exact not_le_of_lt hlt hle
      · have hnot := Bool.eq_false_iff.mpr hreach
        rw [overtakes_cons_of_not_reachesFrame hnot] at hover
        simp only [place, hnot]
        intro hpairwise
        exact ih hrs.tail hover (List.pairwise_append.mp hpairwise).2.1

/-! ## The added buffer -/

theorem wellFormed_singleton (hf : Frame.IsTimed f) : (Run.singleton f : Run F T).WellFormed where
  frames_ne_nil := List.cons_ne_nil _ _
  start_le_stop := le_add (isNumber_of_isFinite hf.pts) hf.duration hf.duration_nonneg

omit [LawfulMediaTime T] in
theorem insertFrame_ne_nil {fs : List F} (hfs : fs ≠ []) : Run.insertFrame order fs f ≠ [] := by
  have hlength := List.length_pos_iff.mpr hfs
  simp only [Run.insertFrame]
  refine List.length_pos_iff.mp ?_
  split_ifs
  · simpa using hlength
  · exact Nat.lt_of_lt_of_le hlength List.length_le_length_insertIdx

theorem wellFormed_insert (hf : Frame.IsTimed f) (hr : r.WellFormed) :
    (r.insert order f).WellFormed where
  frames_ne_nil := insertFrame_ne_nil hr.frames_ne_nil
  start_le_stop := by
    have hpts := isNumber_of_isFinite hf.pts
    have hend := (wellFormed_singleton hf).start_le_stop
    obtain ⟨hstart, hstop⟩ := isNumber_of_le hr.start_le_stop
    exact le_trans (earlier_le hstart hpts).1
      (le_trans hr.start_le_stop (le_later hstop (isNumber_of_le hend).2).1)

omit [Frame F T] in
theorem wellFormed_append {s : Run F T} (hr : r.WellFormed) (hs : s.WellFormed) :
    (r.append s).WellFormed where
  frames_ne_nil := by simp [Run.append, hr.frames_ne_nil]
  start_le_stop := by
    obtain ⟨hrstart, hrstop⟩ := isNumber_of_le hr.start_le_stop
    obtain ⟨hsstart, hsstop⟩ := isNumber_of_le hs.start_le_stop
    exact le_trans (earlier_le hrstart hsstart).1
      (le_trans hr.start_le_stop (le_later hrstop hsstop).1)

variable {b : FrameBuffer F T}

def IsCoherent (b : FrameBuffer F T) : Prop := Coherent b.order b.runs

/-- Adding `f` puts it in front of a frame with its key or a lesser one. -/
def Misplaces (b : FrameBuffer F T) (f : F) : Prop := overtakes b.order f b.runs = true

instance (b : FrameBuffer F T) (f : F) : Decidable (b.Misplaces f) := by
  unfold Misplaces; infer_instance

theorem toList_add (hb : Laid b.order b.runs) (hf : b.order.IsKeyed f)
    (hplace : ¬ b.Misplaces f) :
    (b.add f).toList = b.order.update f b.toList := by
  rw [toList, add, flatMap_mergeRuns, flatMap_place hb hf (Bool.eq_false_iff.mpr hplace), toList]

theorem IsCoherent.add (hb : b.IsCoherent) (hf : Frame.IsTimed f)
    (hplace : ¬ b.Misplaces f) : (b.add f).IsCoherent where
  wellFormed := by
    refine forall_mem_mergeRuns (fun _ _ _ hr hs => wellFormed_append hr hs) ?_
    exact forall_mem_place (wellFormed_singleton hf) (fun _ _ _ _ hr => wellFormed_insert hf hr)
      hb.wellFormed
  timed := by
    have hlist := toList_add hb.laid (hf.isKeyed b.order) hplace
    unfold toList at hlist
    rw [hlist]
    intro g hg
    rcases FrameOrder.mem_update hg with rfl | hg
    · exact hf
    · exact hb.timed g hg
  ascending := by
    have hlist := toList_add hb.laid (hf.isKeyed b.order) hplace
    unfold toList at hlist
    rw [hlist]
    exact hb.ascending.update (FrameOrder.isNumber_key hf)

omit [LawfulMediaTime T] in
theorem IsCoherent.sorted (hb : b.IsCoherent) : b.Sorted :=
  ⟨fun r hr => (hb.wellFormed r hr).frames_ne_nil, hb.ascending.pairwise⟩

theorem IsCoherent.not_sorted_add (hb : b.IsCoherent) (hf : Frame.IsTimed f)
    (hplace : b.Misplaces f) : ¬ (b.add f).Sorted := by
  rintro ⟨-, hpairwise⟩
  rw [toList, FrameBuffer.add, flatMap_mergeRuns] at hpairwise
  exact not_pairwise_place_of_overtakes hb.laid (hf.isKeyed b.order) hplace hpairwise

theorem zip_tail_of_pairwise {fs : List F}
    (hfs : fs.Pairwise fun g h => order.key g < order.key h) :
    (fs.zip fs.tail).all (fun (g, h) => decide (order.key g ≤ order.key h)) = true := by
  induction fs with
  | nil => rfl
  | cons g fs ih =>
      cases fs with
      | nil => rfl
      | cons h fs =>
          have hgh := List.rel_of_pairwise_cons hfs List.mem_cons_self
          have htail := ih (List.pairwise_cons.mp hfs).2
          simp only [List.tail_cons, List.zip_cons_cons, List.all_cons, Bool.and_eq_true]
          exact ⟨decide_eq_true (le_of_lt hgh), htail⟩

theorem IsCoherent.passesCheck (hb : b.IsCoherent) : b.passesCheck = true := by
  refine List.all_eq_true.mpr fun r hr => ?_
  have hwell := hb.wellFormed r hr
  have hpairwise : r.frames.Pairwise fun g h => b.order.key g < b.order.key h :=
    (List.pairwise_flatMap.mp hb.ascending.pairwise).1 r hr
  simp only [Bool.and_eq_true, Bool.not_eq_true', decide_eq_true_eq]
  exact ⟨⟨List.isEmpty_eq_false_iff.mpr hwell.frames_ne_nil, hwell.start_le_stop⟩,
    zip_tail_of_pairwise hpairwise⟩

end FrameBuffer

end MediaPipeline
