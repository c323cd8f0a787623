import MediaPipeline.Proofs.FrameBuffer.LatestKeyFrame

/-!
# Walking from frame to frame

Asking for the frame after a time gives the frame with the least key above it, wherever the borders
of the runs are. So a walk that asks each time for the frame after the last one goes through all the
frames above the time at which it starts, one after another, and ends with them.
-/

namespace MediaPipeline

open MediaTime LawfulMediaTime

variable {F T : Type} [Frame F T] [MediaTime T] [LawfulMediaTime T]

namespace FrameOrder

variable {order : FrameOrder} {fs : List F} {f : F} {t : T}

theorem find?_eq_some_iff_of_pairwise (hkeys : fs.Pairwise fun f g => order.key f < order.key g) :
    fs.find? (fun g => decide (t < order.key g)) = some f ↔
      f ∈ fs ∧ t < order.key f ∧ ∀ g ∈ fs, t < order.key g → order.key f ≤ order.key g := by
  constructor
  · intro hfind
    obtain ⟨htf, before, after, rfl, hnone⟩ := List.find?_eq_some_iff_append.mp hfind
    have htf : t < order.key f := of_decide_eq_true htf
    refine ⟨by simp, htf, fun g hg htg => ?_⟩
    rcases List.mem_append.mp hg with hg | hg
    · simpa [htg] using hnone g hg
    · rcases List.mem_cons.mp hg with rfl | hg
      · exact (isNumber_of_le (le_of_lt htg)).2
      · exact le_of_lt (List.rel_of_pairwise_cons (List.pairwise_append.mp hkeys).2.1 hg)
  · rintro ⟨hmem, htf, hle⟩
    cases hfind : fs.find? fun g => decide (t < order.key g) with
    | none => exact absurd htf (by simpa using List.find?_eq_none.mp hfind f hmem)
    | some g =>
        obtain ⟨htg, before, after, rfl, hnone⟩ := List.find?_eq_some_iff_append.mp hfind
        have hfg : order.key f ≤ order.key g := hle g (by simp) (of_decide_eq_true htg)
        rcases List.mem_append.mp hmem with hf | hf
        · simpa [htf] using hnone f hf
        · rcases List.mem_cons.mp hf with rfl | hf
          · rfl
          · have hgf := List.rel_of_pairwise_cons (List.pairwise_append.mp hkeys).2.1 hf
            exact absurd hfg (not_le_of_lt hgf)

/-- Behind the first frame above a time are the frames above that one. -/
theorem filter_eq_cons_of_find? (hkeys : fs.Pairwise fun f g => order.key f < order.key g)
    (hfind : fs.find? (fun g => decide (t < order.key g)) = some f) :
    fs.filter (fun g => decide (t < order.key g)) =
      f :: fs.filter fun g => decide (order.key f < order.key g) := by
  obtain ⟨htf, before, after, rfl, hnone⟩ := List.find?_eq_some_iff_append.mp hfind
  obtain ⟨-, htail, hbefore⟩ := List.pairwise_append.mp hkeys
  have htf : t < order.key f := of_decide_eq_true htf
  have hafter := (List.pairwise_cons.mp htail).1
  have hself : ¬ order.key f < order.key f := fun hlt => not_le_of_lt hlt (le_of_lt hlt)
  have hskip : before.filter (fun g => decide (t < order.key g)) = [] :=
    List.filter_eq_nil_iff.mpr fun g hg => by simpa using hnone g hg
  have hpassed : before.filter (fun g => decide (order.key f < order.key g)) = [] :=
    (filter_of_forall_lt fun g hg => hbefore g hg f List.mem_cons_self).2
  have hall : after.filter (fun g => decide (t < order.key g)) = after :=
    (filter_of_lt_forall fun g hg => lt_trans htf (hafter g hg)).2
  have hrest : after.filter (fun g => decide (order.key f < order.key g)) = after :=
    (filter_of_lt_forall hafter).2
  simp [List.filter_append, hskip, hpassed, hall, hrest, htf, hself]

end FrameOrder

namespace FrameBuffer

variable {b : FrameBuffer F T}

theorem Sorted.getFrame_after (hb : b.Sorted) (t : T) :
    b.getFrame t .after = b.toList.find? fun g => decide (t < b.order.key g) := by
  rcases FrameOrder.ascending_or_eq_singleton hb.2 with hasc | ⟨f, hlist, hf⟩
  · exact FrameBuffer.getFrame_after hb.1 hasc
  · -- Nothing compares with the only key.
    have hnone : ∀ g ∈ b.toList, ¬ IsNumber (b.order.key g) := by simpa [hlist] using hf
    have hruns : b.runs.find? (·.endsFrom b.order t) = none :=
      List.find?_eq_none.mpr fun r hr => by simp [endsFrom_eq_false hr hnone]
    have hnext : b.toList.find? (fun g => decide (t < b.order.key g)) = none := by
      refine List.find?_eq_none.mpr fun g hg htg => ?_
      exact hnone g hg (isNumber_of_le (le_of_lt (of_decide_eq_true htg))).2
    rw [hnext, getFrame, Option.map_eq_none_iff.mp ((map_run_focus? none).trans hruns)]
    rfl

/-- A walk gives the frames above its start in their order, as many as it may ask for, and ends by
itself if it may ask for more. -/
theorem walk_eq (hb : b.Sorted) (t : T) (n : Nat) :
    b.walk t n = (b.toList.filter fun f => decide (t < b.order.key f)).take n := by
  induction n generalizing t with
  | zero => rfl
  | succ n ih =>
      rw [walk, hb.getFrame_after]
      cases hfind : b.toList.find? fun g => decide (t < b.order.key g) with
      | none =>
          have hnone : b.toList.filter (fun f => decide (t < b.order.key f)) = [] :=
            List.filter_eq_nil_iff.mpr (List.find?_eq_none.mp hfind)
          simp [hnone]
      | some f => simp [FrameOrder.filter_eq_cons_of_find? hb.2 hfind, ih]

/-- The frame after a time is the one with the least key above it, and there is one unless no key is
above it. A walk from the least time goes through all the frames with a key above that time. -/
theorem after_is_next_and_walk_is_complete (hb : b.Sorted) :
    (∀ t f, b.getFrame t .after = some f ↔ f ∈ b.toList ∧ t < b.order.key f ∧
      ∀ g ∈ b.toList, t < b.order.key g → b.order.key f ≤ b.order.key g) ∧
    (∀ t, b.getFrame t .after = none ↔ ∀ f ∈ b.toList, ¬ t < b.order.key f) ∧
    ∀ n, b.walk negInf n = (b.toList.filter fun f => decide (negInf < b.order.key f)).take n := by
  refine ⟨fun t f => ?_, fun t => ?_, walk_eq hb negInf⟩
  · rw [hb.getFrame_after]
    exact FrameOrder.find?_eq_some_iff_of_pairwise hb.2
  · rw [hb.getFrame_after]
    simp

theorem after_is_next_and_walk_is_complete_twoScenes :
    twoScenes.Sorted ∧ twoScenes.getFrame 1 .after = some (picture 5 true) ∧
      ∀ n, 4 ≤ n → twoScenes.walk negInf n = twoScenes.toList := by
  have hb : twoScenes.Sorted := by decide +kernel
  obtain ⟨hnext, -, hwalk⟩ := after_is_next_and_walk_is_complete hb
  have hall : (twoScenes.toList.filter fun f => decide (negInf < twoScenes.order.key f)) =
      twoScenes.toList := by decide +kernel
  have hlength : twoScenes.toList.length = 4 := by decide +kernel
  refine ⟨hb, (hnext 1 _).mpr ⟨?_, ?_, ?_⟩, fun n hn => ?_⟩
  · decide +kernel
  · decide +kernel
  · decide +kernel
  · rw [hwalk, hall, List.take_of_length_le (hlength ▸ hn)]

/-- A picture at the least time of all, where a walk starts. -/
def endlesslyEarly : EncodedBuffer Float := (empty .dts).add (picture negInf true)

/-- The picture does not come after the least time, so a walk from there misses it. -/
theorem endlesslyEarly_missed :
    endlesslyEarly.Sorted ∧ endlesslyEarly.toList = [picture negInf true] ∧
      ∀ n, endlesslyEarly.walk negInf n = [] := by
  have hb : endlesslyEarly.Sorted := by decide +kernel
  have hnone : (endlesslyEarly.toList.filter fun f =>
      decide (negInf < endlesslyEarly.order.key f)) = [] := by decide +kernel
  refine ⟨hb, by decide +kernel, fun n => ?_⟩
  rw [walk_eq hb, hnone, List.take_nil]

end FrameBuffer

end MediaPipeline
