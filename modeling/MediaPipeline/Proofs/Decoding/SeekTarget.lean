import MediaPipeline.Proofs.Decoding.Cursor
import MediaPipeline.Proofs.FrameBuffer.Lookup
import MediaPipeline.Proofs.Time.Double

/-!
# Where a seek lands

After a seek a round looks for the key frame at the current time or before it. The current time is a
presentation time, but the input is sorted by decode times, and only the run that reaches the time
is searched. So a frame is missed where nothing follows it up to the time, and a key frame that is
shown only after the time is found if it is decoded before it.
-/

namespace MediaPipeline

open MediaTime LawfulMediaTime

variable {D T : Type} [MediaTime T]

namespace DecodePhase

/-- The time that a round has read which has not chosen its frame, and its count of seeks. -/
def readAt? : DecodePhase D T → Option (Nat × T)
  | readingCursor _ n t => some (n, t)
  | throttling _ s | choosing _ s => some (s.seeks, s.time)
  | _ => none

omit [MediaTime T] in
theorem seeksRead?_of_readAt? {p : DecodePhase D T} {n : Nat} {t : T}
    (ht : p.readAt? = some (n, t)) : p.seeksRead? = some n := by
  cases p <;> simp_all [readAt?, seeksRead?]

end DecodePhase

namespace DecodeSystem

variable [Decoder D T] {settings : PipelineSettings T} {x : DecodeSystem D T} {n : Nat} {t : T}

theorem readAt?_act {a : DecodeAction D T}
    (ht : (x.act settings a).1.worker.phase.readAt? = some (n, t)) :
    x.worker.phase.readAt? = some (n, t) ∨ ∃ duration, a = .step t duration := by
  cases a with
  | step time duration =>
      have hstep := DecodeWorker.steps_step settings time duration x.worker x.store
      simp only [act] at ht
      generalize x.worker.step settings time duration x.store = r at hstep ht
      cases hstep with
      | readTime _ =>
          cases ht
          exact Or.inr ⟨duration, rfl⟩
      | rest _ => exact Or.inl ht
      | readCursor hphase | evict hphase _ =>
          left
          rw [hphase]
          exact ht
      | @giveBack l next hphase => cases next <;> cases ht
      | _ => cases ht
  | wake =>
      simp only [act, DecodeWorker.wake] at ht
      split at ht
      · cases ht
      · exact Or.inl ht
  | mapRing f =>
      simp only [act, DecodeWorker.mapRing] at ht
      left
      cases hphase : x.worker.phase <;> rw [hphase] at ht <;> exact ht
  | _ => exact Or.inl ht

theorem readAt?_actAll {as : List (DecodeAction D T)}
    (ht : (x.actAll settings as).worker.phase.readAt? = some (n, t)) :
    x.worker.phase.readAt? = some (n, t) ∨ ∃ duration, .step t duration ∈ as := by
  induction as generalizing x with
  | nil => exact Or.inl ht
  | cons a as ih =>
      rcases ih (x := (x.act settings a).1) ht with hnow | ⟨duration, hmem⟩
      · rcases readAt?_act hnow with hbefore | ⟨duration, rfl⟩
        · exact Or.inl hbefore
        · exact Or.inr ⟨duration, List.mem_cons_self⟩
      · exact Or.inr ⟨duration, List.mem_cons_of_mem a hmem⟩

/-- The first choice after a seek to `t` goes by `t` as long as that is the current time. -/
theorem FirstChoice.time_eq (hbetween : x.worker.phase.lease? = none)
    {past future : List (DecodeAction D T)}
    (hfirst : ((x.actAll settings past).act settings .seek).1.FirstChoice settings future)
    (htime : ∀ time duration, .step time duration ∈ future → time = t) {l : DecodeLease D}
    {s : DecodeSnapshot T}
    (hphase : (((x.actAll settings past).act settings .seek).1.actAll settings
      future).worker.phase = .choosing l s) : s.time = t := by
  obtain ⟨l', s', hphase', hseeks⟩ := hfirst.choosing
  rw [hphase] at hphase'
  cases hphase'
  have hread : (((x.actAll settings past).act settings .seek).1.actAll settings
      future).worker.phase.readAt? = some (s.seeks, s.time) := by
    rw [hphase]
    rfl
  rcases readAt?_actAll hread with hbefore | ⟨duration, hmem⟩
  · -- A round under way has not counted this seek.
    have hle := seeksRead?_le hbetween (DecodePhase.seeksRead?_of_readAt? hbefore)
    rw [hseeks] at hle
    exact absurd hle (Nat.not_succ_le_self _)
  · exact htime s.time duration hmem

end DecodeSystem

namespace FrameBuffer

/-- An encoded stream: sorted by decode time, and no frame is shown before it is decoded. -/
structure IsStream (b : EncodedBuffer T) : Prop where
  order : b.order = .dts
  sorted : b.Sorted
  dts_le_pts : ∀ f ∈ b.toList, f.dts ≤ f.pts

/-- The key frame that a seek to `t` should land on: of those that are shown at `t` or before, the
one that is shown last. -/
structure IsSeekTarget (b : EncodedBuffer T) (t : T) (k : EncodedFrame T) : Prop where
  mem : k ∈ b.toList
  isKeyFrame : k.isKeyFrame = true
  pts_le : k.pts ≤ t
  latest : ∀ f ∈ b.toList, f.isKeyFrame = true → f.pts ≤ t → f.pts ≤ k.pts

/-- The run of `k` goes on up to `t` in decode time, or no run follows it, and none of its key
frames that are decoded at `t` or before stands behind `k`. -/
def Reveals (b : EncodedBuffer T) (t : T) (k : EncodedFrame T) : Prop :=
  ∃ r ∈ b.runs, k ∈ r.frames ∧ (r.endsFrom .dts t = true ∨ r ∈ b.runs.getLast?) ∧
    ∀ f ∈ r.frames, f.isKeyFrame = true → f.dts ≤ t → f.dts ≤ k.dts

variable [LawfulMediaTime T] {b : EncodedBuffer T} {t : T} {k : EncodedFrame T}

theorem IsStream.ascending (hb : b.IsStream) : b.order.Ascending b.toList where
  isNumber f hf := by
    rw [hb.order]
    exact (isNumber_of_le (hb.dts_le_pts f hf)).1
  pairwise := hb.sorted.2

theorem IsStream.getFrame_eq_target_iff (hb : b.IsStream) (hk : b.IsSeekTarget t k) :
    b.getFrame t .keyFrameBefore = some k ↔ b.Reveals t k := by
  have hdts : b.order.key k ≤ t := by
    rw [hb.order]
    exact le_trans (hb.dts_le_pts k hk.mem) hk.pts_le
  have hfind := getFrame_keyFrameBefore_eq_some_iff hb.ascending hk.isKeyFrame hdts
  rw [hb.order] at hfind
  exact hfind

end FrameBuffer

namespace DecodeSystem

variable [Decoder D T] [LawfulMediaTime T] {settings : PipelineSettings T} {x : DecodeSystem D T}
  {t : T}

/-- After a seek to `t` that is not lost, with `t` the current time, the first frame that a round
which has begun since hands to the decoder is the target exactly if the run of the target reveals
it. -/
theorem FirstChoice.hands_target_iff (hbetween : x.worker.phase.lease? = none)
    {past future : List (DecodeAction D T)}
    (hkept : ¬ (x.actAll settings past).worker.OverwritesReset)
    (hfirst : ((x.actAll settings past).act settings .seek).1.FirstChoice settings future)
    (htime : ∀ time duration, .step time duration ∈ future → time = t) {l : DecodeLease D}
    {s : DecodeSnapshot T}
    (hphase : (((x.actAll settings past).act settings .seek).1.actAll settings
      future).worker.phase = .choosing l s) {b : EncodedBuffer T}
    (hinput : (((x.actAll settings past).act settings .seek).1.actAll settings
      future).store.encodedAt l.input = b) (hstream : b.IsStream) {k : EncodedFrame T}
    (htarget : b.IsSeekTarget t k) (time : T) (duration : Option T) :
    .decode (some k) ∈ ((((x.actAll settings past).act settings .seek).1.actAll settings
      future).act settings (.step time duration)).2 ↔ b.Reveals t k := by
  obtain ⟨l', s', hphase', hevents⟩ := (hfirst.startsOver_iff hbetween).mpr hkept
  rw [hphase] at hphase'
  cases hphase'
  rw [hevents, hfirst.time_eq hbetween htime hphase, hinput,
    ← hstream.getFrame_eq_target_iff htarget]
  cases b.getFrame t .keyFrameBefore with
  | none => simp
  | some f => simp [eq_comm]

/-! ## A gap in front of the time -/

def keyFrame (dts pts : Float) : EncodedFrame Float :=
  ⟨pts, dts, 1, true, .video 0 "h264" 1 1, [], none⟩

def streamSystem (fs : List (EncodedFrame Float)) : DecodeSystem (PassThrough Float) Float where
  worker := (DecodeWorker.new.setDecoder (some {})).attach 0 0
  store := (BufferStore.new 1).editEncoded 0 (·.addAll fs)

def gap : List (EncodedFrame Float) := [keyFrame 0 0, keyFrame 5 5]

/-- Six steps at `t` take the loop to its choice. -/
def stepsAt (t : Float) : List (DecodeAction (PassThrough Float) Float) :=
  List.replicate 6 (.step t none)

def soughtTo (fs : List (EncodedFrame Float)) (t : Float) :
    DecodeSystem (PassThrough Float) Float :=
  (((streamSystem fs).actAll .default []).act .default .seek).1.actAll .default (stepsAt t)

theorem firstChoice_stepsAt :
    (((streamSystem gap).actAll .default []).act .default .seek).1.FirstChoice .default
      (stepsAt 3) :=
  firstChoice_replicate (by decide +kernel) ⟨_, _, rfl, rfl⟩

theorem isStream_gap : ((soughtTo gap 3).store.encodedAt 0).IsStream where
  order := rfl
  sorted := by decide +kernel
  dts_le_pts := by decide +kernel

theorem isSeekTarget_gap :
    ((soughtTo gap 3).store.encodedAt 0).IsSeekTarget 3 (keyFrame 0 0) where
  mem := by decide +kernel
  isKeyFrame := rfl
  pts_le := by decide +kernel
  latest := by decide +kernel

theorem hands_target_iff_gap :
    .decode (some (keyFrame 0 0)) ∈ ((soughtTo gap 3).act .default (.step 3 none)).2 ↔
      ((soughtTo gap 3).store.encodedAt 0).Reveals 3 (keyFrame 0 0) := by
  have hkept : ¬ ((streamSystem gap).actAll .default []).worker.OverwritesReset := by
    rintro ⟨l, s, f, reached, hphase, -⟩
    cases hphase
  have htime : ∀ time duration, .step time duration ∈ stepsAt 3 → time = 3 := by
    intro time duration hmem
    cases List.eq_of_mem_replicate hmem
    rfl
  have hphase : (soughtTo gap 3).worker.phase = .choosing ⟨0, 0, {}, 1, none⟩ ⟨1, 3, none⟩ := by
    decide +kernel
  exact FirstChoice.hands_target_iff rfl hkept firstChoice_stepsAt htime hphase rfl isStream_gap
    isSeekTarget_gap 3 none

/-- The key frame at zero is the one to start from, but nothing is handed to the decoder. -/
theorem target_missed :
    ((soughtTo gap 3).store.encodedAt 0).IsStream ∧
      ((soughtTo gap 3).store.encodedAt 0).IsSeekTarget 3 (keyFrame 0 0) ∧
        (((streamSystem gap).actAll .default []).act .default .seek).1.FirstChoice .default
          (stepsAt 3) ∧
        .decode (some (keyFrame 0 0)) ∉ ((soughtTo gap 3).act .default (.step 3 none)).2 :=
  ⟨isStream_gap, isSeekTarget_gap, firstChoice_stepsAt, by decide +kernel⟩

/-- A key frame that is decoded before the time but shown after it is taken for the target. -/
example : .decode (some (keyFrame 1 1.5)) ∈
    ((soughtTo [keyFrame 0 0, keyFrame 1 1.5] 1.2).act .default (.step 1.2 none)).2 := by
  decide +kernel

end DecodeSystem

end MediaPipeline
