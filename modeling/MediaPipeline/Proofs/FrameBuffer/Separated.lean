import Mathlib.Data.List.Chain
import MediaPipeline.Proofs.FrameBuffer.Adding

/-!
# Runs out of reach of each other

Every addition joins the runs that touch, so as long as nothing is removed no run reaches the one
after it. Then the first run that reaches a new frame is the only one that the frame can belong to,
and adding a frame is always the update of a map.
-/

namespace MediaPipeline

open MediaTime LawfulMediaTime

namespace FrameBuffer

variable {F T : Type} [Frame F T] [MediaTime T]
variable {order : FrameOrder} {f : F} {r : Run F T} {rs : List (Run F T)} {b : FrameBuffer F T}

/-- No run reaches the one after it. -/
def Separated (order : FrameOrder) (rs : List (Run F T)) : Prop :=
  rs.IsChain fun r next => touches order r next = false

omit [Frame F T] in
theorem head?_frames_append {s : Run F T} (hr : r.frames ≠ []) :
    (r.append s).frames.head? = r.frames.head? := by
  obtain ⟨g, gs, hg⟩ := List.exists_cons_of_ne_nil hr
  simp [Run.append, hg]

/-- Merging never changes how a list of runs begins. -/
theorem exists_mergeFrom_eq_cons (order : FrameOrder) (rs : List (Run F T)) (hr : r.frames ≠ []) :
    ∃ s ss, mergeFrom order r rs = s :: ss ∧ s.frames.head? = r.frames.head? := by
  induction rs generalizing r with
  | nil => exact ⟨r, [], rfl, rfl⟩
  | cons next rs ih =>
      by_cases htouch : touches order r next
      · have hjoined : (r.append next).frames ≠ [] := by simp [Run.append, hr]
        obtain ⟨s, ss, hmerge, hhead⟩ := ih hjoined
        refine ⟨s, ss, ?_, hhead.trans (head?_frames_append hr)⟩
        simpa [mergeFrom, htouch] using hmerge
      · refine ⟨r, mergeFrom order next rs, ?_, rfl⟩
        simp [mergeFrom, htouch]

theorem separated_mergeFrom (hr : r.frames ≠ []) (hrs : ∀ s ∈ rs, s.frames ≠ []) :
    Separated order (mergeFrom order r rs) := by
  induction rs generalizing r with
  | nil => exact List.isChain_singleton r
  | cons next rs ih =>
      obtain ⟨hnext, hlater⟩ := List.forall_mem_cons.mp hrs
      by_cases htouch : touches order r next
      · have hjoined : (r.append next).frames ≠ [] := by simp [Run.append, hr]
        simpa [mergeFrom, htouch] using ih hjoined hlater
      · obtain ⟨s, ss, hmerge, hhead⟩ := exists_mergeFrom_eq_cons order rs hnext
        have htail := ih hnext hlater
        have hborder : touches order r s = false := by
          rw [touches, hhead]
          exact Bool.eq_false_iff.mpr htouch
        rw [hmerge] at htail
        simp only [mergeFrom, htouch, hmerge]
        exact List.isChain_cons_cons.mpr ⟨hborder, htail⟩

theorem separated_mergeRuns (hrs : ∀ s ∈ rs, s.frames ≠ []) :
    Separated order (mergeRuns order rs) := by
  cases rs with
  | nil => exact List.isChain_nil
  | cons r rs =>
      obtain ⟨hr, hlater⟩ := List.forall_mem_cons.mp hrs
      exact separated_mergeFrom hr hlater

/-- A buffer of sorted runs that are out of reach of each other. -/
structure IsSpaced (b : FrameBuffer F T) : Prop where
  laid : Laid b.order b.runs
  separated : Separated b.order b.runs

theorem isSpaced_empty (order : FrameOrder) : (empty (F := F) (T := T) order).IsSpaced where
  laid := ⟨by simp [empty], by simp [empty], ⟨by simp [empty], by simp [empty]⟩⟩
  separated := List.isChain_nil

variable [LawfulMediaTime T]

/-- A frame within the reach of a run stands in front of the next run, which is not. -/
theorem overtakes_of_separated (hrs : Separated order rs) : overtakes order f rs = false := by
  induction rs with
  | nil => rfl
  | cons r rs ih =>
      cases rs with
      | nil => rfl
      | cons next rs =>
          obtain ⟨hborder, htail⟩ := List.isChain_cons_cons.mp hrs
          by_cases hreach : r.reachesFrame order f
          · simp only [overtakes, hreach, if_true]
            obtain ⟨last, hlast, hlf⟩ := (Option.any_eq_true _ _).mp hreach
            cases hnext : next.frames.head? with
            | none => rfl
            | some first =>
                simp only [touches, hnext, Run.reachesFrame, hlast, Option.any_some] at hborder
                simp only [Option.any_some, decide_eq_false_iff_not]
                intro hle
                exact of_decide_eq_false hborder (le_trans hle (of_decide_eq_true hlf))
          · rw [overtakes_cons_of_not_reachesFrame (Bool.eq_false_iff.mpr hreach)]
            exact ih htail

theorem not_misplaces_of_separated (hb : Separated b.order b.runs) (f : F) :
    ¬ b.Misplaces f := by
  intro hplace
  rw [Misplaces, overtakes_of_separated hb] at hplace
  exact Bool.false_ne_true hplace

theorem IsSpaced.toList_add (hb : b.IsSpaced) (hf : b.order.IsKeyed f) :
    (b.add f).toList = b.order.update f b.toList :=
  FrameBuffer.toList_add hb.laid hf (not_misplaces_of_separated hb.separated f)

omit [LawfulMediaTime T] in
theorem frames_ne_nil_place (hrs : ∀ s ∈ rs, s.frames ≠ []) :
    ∀ s ∈ place order f rs, s.frames ≠ [] := by
  apply forall_mem_place (List.cons_ne_nil f []) _ hrs
  exact fun r _ _ _ hr => insertFrame_ne_nil hr

theorem IsSpaced.add (hb : b.IsSpaced) (hf : b.order.IsKeyed f) : (b.add f).IsSpaced where
  laid := by
    have hlist : (b.add f).runs.flatMap Run.frames = b.order.update f b.toList := hb.toList_add hf
    refine ⟨?_, ?_, ?_⟩
    · exact forall_mem_mergeRuns (fun r s _ hr _ => by simp [Run.append, hr])
        (frames_ne_nil_place hb.laid.frames_ne_nil)
    · rw [hlist]
      intro g hg
      rcases FrameOrder.mem_update hg with rfl | hg
      · exact hf
      · exact hb.laid.keyed g hg
    · rw [hlist]
      exact hb.laid.ascending.update hf.isNumber
  separated := separated_mergeRuns (frames_ne_nil_place hb.laid.frames_ne_nil)

/-- A coherent buffer whose runs are out of reach of each other. -/
structure IsSeparated (b : FrameBuffer F T) : Prop where
  coherent : b.IsCoherent
  separated : Separated b.order b.runs

omit [LawfulMediaTime T] in
theorem isSeparated_of_runs_eq_nil (hb : b.runs = []) : b.IsSeparated where
  coherent := ⟨by simp [hb], by simp [hb], ⟨by simp [hb], by simp [hb]⟩⟩
  separated := by simp [Separated, hb]

theorem IsSeparated.not_misplaces (hb : b.IsSeparated) (f : F) : ¬ b.Misplaces f := by
  exact not_misplaces_of_separated hb.separated f

theorem IsSeparated.isSpaced (hb : b.IsSeparated) : b.IsSpaced := ⟨hb.coherent.laid, hb.separated⟩

theorem IsSeparated.toList_add (hb : b.IsSeparated) (hf : Frame.IsTimed f) :
    (b.add f).toList = b.order.update f b.toList :=
  hb.isSpaced.toList_add (hf.isKeyed b.order)

theorem IsSeparated.add (hb : b.IsSeparated) (hf : Frame.IsTimed f) : (b.add f).IsSeparated where
  coherent := hb.coherent.add hf (hb.not_misplaces f)
  separated := (hb.isSpaced.add (hf.isKeyed b.order)).separated

end FrameBuffer

end MediaPipeline
