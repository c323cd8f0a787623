import MediaPipeline.Proofs.FrameBuffer.LastWrite
import MediaPipeline.Proofs.FrameBuffer.Mapping
import MediaPipeline.Proofs.FrameBuffer.MaximalRuns

/-!
# The bounds of the runs

The bounds of a run only grow while frames come in, and a removal computes them anew. So a run is
bounded by all the frames that have been put into it since the last removal, and a frame whose place
another one has taken still counts. To tell which these are, every frame keeps a record of those
that it has replaced.
-/

namespace MediaPipeline

open MediaTime LawfulMediaTime

/-- A frame together with those whose place it has taken since the last removal. -/
structure Replacing (F : Type) where
  frame : F
  replaced : List F

section Definitions

variable {F T : Type} [Frame F T] [MediaTime T]

namespace Replacing

instance : Frame (Replacing F) T where
  pts f := Frame.pts f.frame
  dts f := Frame.dts f.frame
  duration f := Frame.duration f.frame
  isKeyFrame f := Frame.isKeyFrame f.frame
  payloadSize f := Frame.payloadSize f.frame

def all (f : Replacing F) : List F := f.frame :: f.replaced

def forget (f : Replacing F) : Replacing F := ⟨f.frame, []⟩

end Replacing

namespace Run

/-- The bounds are those of the frames: none is outside of them, and each is met by a frame. -/
structure IsExact (r : Run F T) : Prop where
  start_le : ∀ f ∈ r.frames, r.start ≤ Frame.pts f
  le_stop : ∀ f ∈ r.frames, Frame.presentationEnd f ≤ r.stop
  start_met : ∃ f ∈ r.frames, Frame.pts f ≤ r.start
  stop_met : ∃ f ∈ r.frames, r.stop ≤ Frame.presentationEnd f

instance (r : Run F T) : Decidable r.IsExact :=
  decidable_of_iff ((∀ f ∈ r.frames, r.start ≤ Frame.pts f) ∧
      (∀ f ∈ r.frames, Frame.presentationEnd f ≤ r.stop) ∧
      (∃ f ∈ r.frames, Frame.pts f ≤ r.start) ∧ ∃ f ∈ r.frames, r.stop ≤ Frame.presentationEnd f)
    ⟨fun ⟨hstart, hstop, hfirst, hlast⟩ => ⟨hstart, hstop, hfirst, hlast⟩,
      fun h => ⟨h.start_le, h.le_stop, h.start_met, h.stop_met⟩⟩

/-- The run of all the frames that have been put into `r`. -/
def ledger (r : Run (Replacing F) T) : Run F T :=
  ⟨r.frames.flatMap Replacing.all, r.start, r.stop⟩

/-- `f` with what it replaces if it is put into `r`. -/
def heir (order : FrameOrder) (r : Run (Replacing F) T) (f : F) : Replacing F where
  frame := f
  replaced :=
    match r.frames[order.lowerBound r.frames (order.key f)]? with
    | some g => if order.key g == order.key f then g.all else []
    | none => []

/-- Frames of the run start as early as `g` and end as late. -/
def Spans (r : Run F T) (g : F) : Prop :=
  (∃ f ∈ r.frames, Frame.pts f ≤ Frame.pts g) ∧
    ∃ f ∈ r.frames, Frame.presentationEnd g ≤ Frame.presentationEnd f

instance (r : Run F T) (g : F) : Decidable (r.Spans g) := by
  unfold Spans; infer_instance

end Run

namespace FrameBuffer

/-- `f` with what it replaces at the place that it gets. -/
def heir (order : FrameOrder) (f : F) : List (Run (Replacing F) T) → Replacing F
  | [] => ⟨f, []⟩
  | r :: rs =>
    if r.reachesFrame order ⟨f, []⟩ then
      if r.reachedBy order ⟨f, []⟩ then r.heir order f else ⟨f, []⟩
    else heir order f rs

/-- An edit that keeps the records. -/
def track (b : FrameBuffer (Replacing F) T) : BufferEdit F T → FrameBuffer (Replacing F) T
  | .add f => b.add (heir b.order f b.runs)
  | .remove start stop => (b.remove start stop).map Replacing.forget
  | .clear => b.clear

def trackAll (order : FrameOrder) (es : List (BufferEdit F T)) : FrameBuffer (Replacing F) T :=
  es.foldl track (empty order)

end FrameBuffer

end Definitions

variable {F T : Type} [Frame F T] [MediaTime T] {order : FrameOrder} {f g : F}

/-! ## Records do not matter to the buffer -/

namespace Replacing

omit [MediaTime T] in
theorem keepsTiming_frame : Frame.KeepsTiming (Replacing.frame : Replacing F → F) where
  pts _ := rfl
  dts _ := rfl
  duration _ := rfl
  isKeyFrame _ := rfl

omit [MediaTime T] in
theorem key (f : Replacing F) : order.key f = order.key f.frame := (keepsTiming_frame.key f).symm

end Replacing

namespace FrameBuffer

variable {b : FrameBuffer (Replacing F) T} {e : BufferEdit F T} {es : List (BufferEdit F T)}

theorem frame_heir (order : FrameOrder) (f : F) (rs : List (Run (Replacing F) T)) :
    (heir order f rs).frame = f := by
  induction rs with
  | nil => rfl
  | cons r rs ih =>
      unfold heir
      split_ifs
      · rfl
      · rfl
      · exact ih

omit [Frame F T] [MediaTime T] in
theorem map_frame_map_forget (b : FrameBuffer (Replacing F) T) :
    (b.map Replacing.forget).map Replacing.frame = b.map Replacing.frame := by
  simp [FrameBuffer.map, Run.map, Function.comp_def, Replacing.forget]

theorem map_frame_track (b : FrameBuffer (Replacing F) T) (e : BufferEdit F T) :
    (b.track e).map Replacing.frame = (b.map Replacing.frame).edit e := by
  cases e with
  | add f =>
      rw [track, Replacing.keepsTiming_frame.map_add, frame_heir]
      rfl
  | remove start stop =>
      rw [track, map_frame_map_forget, Replacing.keepsTiming_frame.map_remove]
      rfl
  | clear => rfl

@[simp] theorem trackAll_concat : trackAll order (es ++ [e]) = (trackAll order es).track e := by
  simp [trackAll]

theorem map_frame_trackAll (order : FrameOrder) (es : List (BufferEdit F T)) :
    (trackAll order es).map Replacing.frame = (empty order).editAll es := by
  induction es using List.reverseRecOn with
  | nil => rfl
  | append_singleton es e ih => rw [trackAll_concat, map_frame_track, ih, editAll_concat]

end FrameBuffer

/-! ## The ledger of a run -/

theorem FrameOrder.lowerBound_le_length (order : FrameOrder) (fs : List F) (t : T) :
    order.lowerBound fs t ≤ fs.length := by
  unfold lowerBound
  split
  · split_ifs
    · exact List.findIdx_le_length
    · exact Nat.sub_le _ _
  · exact Nat.zero_le _

namespace Run

variable {r s : Run (Replacing F) T}

omit [Frame F T] [MediaTime T] in
theorem frame_mem_ledger {f : Replacing F} (hf : f ∈ r.frames) : f.frame ∈ r.ledger.frames :=
  List.mem_flatMap.mpr ⟨f, hf, List.mem_cons_self⟩

omit [Frame F T] in
theorem ledger_append (r s : Run (Replacing F) T) :
    (r.append s).ledger = r.ledger.append s.ledger := by
  simp [ledger, append]

omit [Frame F T] [MediaTime T] in
theorem ledger_map_forget (r : Run (Replacing F) T) :
    (r.map Replacing.forget).ledger = r.map Replacing.frame := by
  simp only [ledger, map, List.flatMap_map, Replacing.all, Replacing.forget]
  rw [List.map_eq_flatMap]

/-- A frame that is put into a run is one more in its ledger, whether or not it replaces another. -/
theorem mem_ledger_insert (r : Run (Replacing F) T) (f g : F) :
    g ∈ (r.insert order (r.heir order f)).ledger.frames ↔ g = f ∨ g ∈ r.ledger.frames := by
  have hkey : order.key (r.heir order f) = order.key f := Replacing.key _
  have hle := order.lowerBound_le_length r.frames (order.key f)
  simp only [ledger, insert, insertFrame, hkey]
  generalize hi : order.lowerBound r.frames (order.key f) = i at hle
  cases hat : r.frames[i]? with
  | none =>
      have hheir : r.heir order f = ⟨f, []⟩ := by simp [heir, hi, hat]
      simp [hheir, List.mem_insertIdx hle, Replacing.all, or_and_right, exists_or]
  | some old =>
      cases hsame : order.key old == order.key f with
      | false =>
          have hheir : r.heir order f = ⟨f, []⟩ := by simp [heir, hi, hat, hsame]
          simp [hheir, hsame, List.mem_insertIdx hle, Replacing.all, or_and_right, exists_or]
      | true =>
          -- The new frame has the old one, and all that it has replaced, in its record.
          have hheir : r.heir order f = ⟨f, old.all⟩ := by simp [heir, hi, hat, hsame]
          obtain ⟨hlt, hold⟩ := List.getElem?_eq_some_iff.mp hat
          have hframes : r.frames = r.frames.take i ++ old :: r.frames.drop (i + 1) := by
            rw [← hold, List.cons_getElem_drop_succ, List.take_append_drop]
          simp only [hheir, hsame, Option.any_some, if_true, List.set_eq_take_append_cons_drop, hlt,
            List.flatMap_append, List.flatMap_cons]
          conv_rhs => rw [hframes]
          simp only [List.flatMap_append, List.flatMap_cons, List.mem_append, Replacing.all,
            List.mem_cons]
          tauto

variable [LawfulMediaTime T]

theorem tight_ledger_insert (hr : r.ledger.Tight) (hf : Frame.IsTimed f) :
    (r.insert order (r.heir order f)).ledger.Tight := by
  apply tight_of_mem_iff hr (tight_singleton hf) _ rfl rfl
  intro g
  rw [mem_ledger_insert, or_comm]
  simp [singleton]

theorem tight_ofFrames {fs : List F} (hne : fs ≠ []) (hfs : ∀ f ∈ fs, Frame.IsTimed f) :
    (ofFrames fs : Run F T).Tight := by
  have hpts : ∀ f ∈ fs, IsNumber (Frame.pts f) := fun f hf => isNumber_of_isFinite (hfs f hf).pts
  have hend : ∀ f ∈ fs, Frame.pts f ≤ Frame.presentationEnd f := fun f hf =>
    le_add (hpts f hf) (hfs f hf).duration (hfs f hf).duration_nonneg
  obtain ⟨f, hf⟩ := List.exists_mem_of_ne_nil fs hne
  obtain ⟨hlow, hhigh⟩ : negInf < Frame.pts f ∧ Frame.pts f < posInf := by
    simpa [isFinite] using (hfs f hf).pts
  have hstart := (foldl_earlier_le (isNumber_of_le (le_of_lt hhigh)).2 hpts).2
  have hstop := (le_foldl_later (isNumber_of_le (le_of_lt hlow)).1
    fun f hf => (isNumber_of_le (hend f hf)).2).2
  refine ⟨hstart, hstop, ?_, ?_⟩
  · rcases foldl_earlier_eq_or fs Frame.pts posInf with heq | ⟨g, hg, heq⟩
    · exact absurd (heq ▸ hstart f hf) (not_le_of_lt hhigh)
    · exact ⟨g, hg, heq.symm⟩
  · rcases foldl_later_eq_or fs Frame.presentationEnd negInf with heq | ⟨g, hg, heq⟩
    · exact absurd (le_trans (hend f hf) (heq ▸ hstop f hf)) (not_le_of_lt hlow)
    · exact ⟨g, hg, heq.symm⟩

theorem Tight.isExact {r : Run F T} (hr : r.Tight) : r.IsExact := by
  obtain ⟨first, hfirst, hfirst_eq⟩ := hr.start_attained
  obtain ⟨last, hlast, hlast_eq⟩ := hr.stop_attained
  have hstart := (isNumber_of_le (hr.start_le first hfirst)).1
  have hstop := (isNumber_of_le (hr.le_stop last hlast)).2
  refine ⟨hr.start_le, hr.le_stop, ⟨first, hfirst, ?_⟩, ⟨last, hlast, ?_⟩⟩
  · rw [hfirst_eq]
    exact hstart
  · rw [hlast_eq]
    exact hstop

/-- If the bounds are those of more frames, they are those of the frames of the run exactly if these
span all the others. -/
theorem isExact_iff_forall_spans {q s : Run F T} (hs : s.IsExact)
    (hmem : ∀ f ∈ q.frames, f ∈ s.frames) (hstart : q.start = s.start) (hstop : q.stop = s.stop) :
    q.IsExact ↔ ∀ g ∈ s.frames, q.Spans g := by
  constructor
  · intro hq g hg
    obtain ⟨first, hfirst, hle⟩ := hq.start_met
    obtain ⟨last, hlast, hge⟩ := hq.stop_met
    rw [hstart] at hle
    rw [hstop] at hge
    exact ⟨⟨first, hfirst, le_trans hle (hs.start_le g hg)⟩,
      last, hlast, le_trans (hs.le_stop g hg) hge⟩
  · intro hspans
    obtain ⟨first, hfirst, hle⟩ := hs.start_met
    obtain ⟨last, hlast, hge⟩ := hs.stop_met
    obtain ⟨earliest, hearliest, hfirst⟩ := (hspans first hfirst).1
    obtain ⟨latest, hlatest, hlast⟩ := (hspans last hlast).2
    refine ⟨fun f hf => ?_, fun f hf => ?_, ⟨earliest, hearliest, ?_⟩, ⟨latest, hlatest, ?_⟩⟩
    · exact hstart ▸ hs.start_le f (hmem f hf)
    · exact hstop ▸ hs.le_stop f (hmem f hf)
    · exact hstart ▸ le_trans hfirst hle
    · exact hstop ▸ le_trans hge hlast

theorem isExact_iff_spans_replaced (hr : r.ledger.Tight) :
    (r.map Replacing.frame).IsExact ↔
      ∀ f ∈ r.frames, ∀ g ∈ f.replaced, (r.map Replacing.frame).Spans g := by
  have hmem : ∀ f ∈ (r.map Replacing.frame).frames, f ∈ r.ledger.frames := by
    intro g hg
    obtain ⟨f, hf, rfl⟩ := List.mem_map.mp hg
    exact frame_mem_ledger hf
  have hself : ∀ f ∈ r.frames, (r.map Replacing.frame).Spans f.frame := by
    intro f hf
    have hheld : f.frame ∈ (r.map Replacing.frame).frames := List.mem_map_of_mem hf
    have hstart := (isNumber_of_le (hr.start_le _ (frame_mem_ledger hf))).2
    have hstop := (isNumber_of_le (hr.le_stop _ (frame_mem_ledger hf))).1
    exact ⟨⟨f.frame, hheld, hstart⟩, f.frame, hheld, hstop⟩
  rw [isExact_iff_forall_spans hr.isExact hmem rfl rfl]
  constructor
  · intro hspans f hf g hg
    exact hspans g (List.mem_flatMap.mpr ⟨f, hf, List.mem_cons_of_mem _ hg⟩)
  · intro hspans g hg
    obtain ⟨f, hf, hg⟩ := List.mem_flatMap.mp hg
    rcases List.mem_cons.mp hg with rfl | hg
    · exact hself f hf
    · exact hspans f hf g hg

end Run

namespace FrameBuffer

variable {b : FrameBuffer (Replacing F) T} {e : BufferEdit F T} {es : List (BufferEdit F T)}

/-- A frame is put into one of the runs, or is a run of its own between them. -/
theorem place_heir_cases (order : FrameOrder) (f : F) (rs : List (Run (Replacing F) T)) :
    (∃ before r after, rs = before ++ r :: after ∧
      place order (heir order f rs) rs = before ++ r.insert order (r.heir order f) :: after) ∨
    ∃ before after, rs = before ++ after ∧
      place order (heir order f rs) rs = before ++ .singleton ⟨f, []⟩ :: after := by
  induction rs with
  | nil => exact Or.inr ⟨[], [], rfl, rfl⟩
  | cons r rs ih =>
      have hseen (h : Replacing F) (hh : h.frame = f) :
          r.reachesFrame order h = r.reachesFrame order ⟨f, []⟩ ∧
            r.reachedBy order h = r.reachedBy order ⟨f, []⟩ := by
        subst hh
        exact ⟨rfl, rfl⟩
      obtain ⟨hreach, hback⟩ := hseen _ (frame_heir order f (r :: rs))
      rw [place, hreach, hback, heir]
      split_ifs
      · exact Or.inl ⟨[], r, rs, rfl, rfl⟩
      · exact Or.inr ⟨[], r :: rs, rfl, rfl⟩
      · rcases ih with ⟨before, s, after, hrs, hplace⟩ | ⟨before, after, hrs, hplace⟩
        · exact Or.inl ⟨r :: before, s, after, by rw [hrs]; rfl, by rw [hplace]; rfl⟩
        · exact Or.inr ⟨r :: before, after, by rw [hrs]; rfl, by rw [hplace]; rfl⟩

theorem forall_mem_track_add {P : Run (Replacing F) T → Prop}
    (happend : ∀ r s, P r → P s → P (r.append s)) (hsingleton : P (.singleton ⟨f, []⟩))
    (hinsert : ∀ r, P r → P (r.insert b.order (r.heir b.order f))) (hb : ∀ r ∈ b.runs, P r) :
    ∀ r ∈ (b.track (.add f)).runs, P r := by
  apply forall_mem_mergeRuns fun r s _ => happend r s
  rcases place_heir_cases b.order f b.runs with
    ⟨before, r, after, hruns, hplace⟩ | ⟨before, after, hruns, hplace⟩
  · rw [hruns] at hb
    rw [hplace]
    simp only [List.forall_mem_append, List.forall_mem_cons] at hb ⊢
    exact ⟨hb.1, hinsert r hb.2.1, hb.2.2⟩
  · rw [hruns] at hb
    rw [hplace]
    simp only [List.forall_mem_append, List.forall_mem_cons] at hb ⊢
    exact ⟨hb.1, hsingleton, hb.2⟩

variable [LawfulMediaTime T]

theorem tight_ledger_add (hb : ∀ r ∈ b.runs, r.ledger.Tight) (hf : Frame.IsTimed f) :
    ∀ r ∈ (b.track (.add f)).runs, r.ledger.Tight := by
  refine forall_mem_track_add ?_ ?_ ?_ hb
  · intro r s hr hs
    rw [Run.ledger_append]
    exact Run.tight_append hr hs
  · exact Run.tight_singleton hf
  · exact fun r hr => Run.tight_ledger_insert hr hf

/-- A removal computes the bounds anew from what is left. -/
theorem tight_remove {b : FrameBuffer F T} (hb : ∀ f ∈ b.toList, Frame.IsTimed f) (start stop : T) :
    ∀ r ∈ (b.remove start stop).runs, r.Tight := by
  intro r hr
  obtain ⟨fs, hne, hmem, rfl⟩ := exists_ofFrames_of_mem_removeRuns hr
  exact Run.tight_ofFrames hne fun f hf => hb f (hmem f hf)

theorem tight_ledger_remove (hb : ∀ f ∈ (b.map Replacing.frame).toList, Frame.IsTimed f)
    (start stop : T) : ∀ r ∈ (b.track (.remove start stop)).runs, r.ledger.Tight := by
  intro s hs
  obtain ⟨r, hr, rfl⟩ := List.mem_map.mp hs
  rw [Run.ledger_map_forget]
  apply tight_remove hb start stop
  rw [← Replacing.keepsTiming_frame.map_remove]
  exact List.mem_map_of_mem hr

/-- Every run is bounded by the frames that have been put into it since the last removal. -/
theorem tight_ledger_trackAll (order : FrameOrder) (hes : Proper es) :
    ∀ r ∈ (trackAll order es).runs, r.ledger.Tight := by
  induction es using List.reverseRecOn with
  | nil => simp [trackAll, empty]
  | append_singleton es e ih =>
      have hpast : Proper es := fun f hf => hes f (List.mem_append_left _ hf)
      rw [trackAll_concat]
      cases e with
      | add f => exact tight_ledger_add (ih hpast) (hes f (by simp))
      | remove start stop =>
          apply tight_ledger_remove
          rw [map_frame_trackAll]
          intro f hf
          rcases mem_toList_editAll hf with hadd | hempty
          · exact hpast f hadd
          · simp [toList, empty] at hempty
      | clear => simp [track, clear]

/-- The bounds of the runs of a buffer are the least start and the greatest end of all the frames
that have been put into the run since the last removal. They are those of the frames that it holds
exactly if these span the frames whose place they have taken. -/
theorem bounds_exact_iff (order : FrameOrder) (es : List (BufferEdit F T)) (hes : Proper es) :
    (trackAll order es).map Replacing.frame = (empty order).editAll es ∧
    (∀ r ∈ (trackAll order es).runs, r.ledger.Tight) ∧
    ((∀ r ∈ ((empty order).editAll es).runs, r.IsExact) ↔
      ∀ r ∈ (trackAll order es).runs, ∀ f ∈ r.frames, ∀ g ∈ f.replaced,
        (r.map Replacing.frame).Spans g) := by
  have htight := tight_ledger_trackAll order hes
  refine ⟨map_frame_trackAll order es, htight, ?_⟩
  have hruns : ((empty order).editAll es).runs =
      (trackAll order es).runs.map (Run.map Replacing.frame) := by
    rw [← map_frame_trackAll]
    rfl
  rw [hruns, List.forall_mem_map]
  exact forall₂_congr fun r hr => Run.isExact_iff_spans_replaced (htight r hr)

/-- The end of the long frame stays until frames are removed, be it only others. -/
theorem bounds_exact_iff_rewrites :
    (Proper rewrites ∧ Proper (rewrites ++ [.remove 5 6])) ∧
    (¬ ∀ r ∈ (trackAll .dts rewrites).runs, ∀ f ∈ r.frames, ∀ g ∈ f.replaced,
      (r.map Replacing.frame).Spans g) ∧
    ∀ r ∈ ((empty .dts).editAll (rewrites ++ [.remove 5 6])).runs, r.IsExact := by
  have hremoved : Proper (rewrites ++ [.remove 5 6]) := by
    intro f hf
    exact proper_rewrites f (by simpa using hf)
  refine ⟨⟨proper_rewrites, hremoved⟩, ?_, ?_⟩
  · exact mt (bounds_exact_iff .dts rewrites proper_rewrites).2.2.mpr (by decide +kernel)
  · exact (bounds_exact_iff .dts _ hremoved).2.2.mpr (by decide +kernel)

/-- A frame of a tenth of a second at the end, in the place of one of a whole second. -/
theorem rewrites_not_exact :
    ¬ ∀ es : List (BufferEdit (EncodedFrame Float) Float), Proper es →
      ∀ r ∈ ((empty .dts).editAll es).runs, r.IsExact := by
  intro hexact
  exact absurd (hexact rewrites proper_rewrites) (by decide +kernel)

end FrameBuffer

end MediaPipeline
