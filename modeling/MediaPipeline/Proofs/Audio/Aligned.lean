import MediaPipeline.Proofs.Audio.Drift
import MediaPipeline.Proofs.Audio.Takes
import MediaPipeline.Proofs.FrameBuffer.LastWrite

/-!
# Audio stays aligned

Since writing last began the device was given a portion for each frame that was played: silence if
the frame starts late, and then the frame from one of its instants on, not the first if the frame
starts early. The renderer measures how far off it is by the bytes that it has written, so small
errors that it lets pass, and what it loses by correcting in whole samples, never add up: every
sample stands within the limit, or within one sample, of its time.
-/

namespace MediaPipeline

/-- What is written of one frame: silence, and the frame from one of its instants on. -/
structure Portion (T : Type) where
  frame : DecodedFrame T
  silence : Nat
  first : Nat

namespace Portion

variable {T : Type}

def bytes (p : Portion T) : Bytes :=
  List.replicate p.silence 0 ++ Audio.instantsFrom p.frame p.first

/-- Instant `j` of `f` is written `offset` bytes from the start. -/
def IsAt (portions : List (Portion T)) (offset : Nat) (f : DecodedFrame T) (j : Nat) : Prop :=
  ∃ before p after, portions = before ++ p :: after ∧ p.frame = f ∧
    p.first ≤ j ∧ j < Audio.instants f ∧
    offset = (before.flatMap bytes).length + p.silence +
      (j - p.first) * Audio.bytesPerInstant f

/-- Every instant is written within the limit, or within one instant, of its time. -/
def Aligned (limit : ExactTime) (sync : ℚ) (portions : List (Portion ExactTime)) : Prop :=
  ∀ offset f j pts, IsAt portions offset f j → f.pts = .finite pts →
    .finite |sync + (offset : ℚ) / Audio.bytesPerInstant f / f.stream.sampleRate -
        (pts + (j : ℚ) / f.stream.sampleRate)| <
      MediaTime.later limit (.finite (1 / f.stream.sampleRate))

/-- An instant is left out only if what was written before reaches beyond its time. -/
def SkipsPast (sync : ℚ) (portions : List (Portion ExactTime)) : Prop :=
  ∀ before p after, portions = before ++ p :: after → ∀ pts, p.frame.pts = .finite pts →
    ∀ j : ℕ, j < p.first → pts + (j : ℚ) / p.frame.stream.sampleRate <
      sync + ((before.flatMap bytes).length : ℚ) / Audio.bytesPerInstant p.frame /
        p.frame.stream.sampleRate

section IsAt

variable {T : Type} {portions : List (Portion T)} {offset j : ℕ} {f : DecodedFrame T}

theorem IsAt.mem_map_frame (hat : IsAt portions offset f j) : f ∈ portions.map frame := by
  obtain ⟨before, p, after, rfl, rfl, -⟩ := hat
  simp

theorem IsAt.instant_prefix (hat : IsAt portions offset f j) (hf : Audio.IsWhole f) :
    Audio.instant f j <+: (portions.flatMap bytes).drop offset := by
  obtain ⟨before, p, after, rfl, rfl, hfirst, hj, rfl⟩ := hat
  rw [List.flatMap_append, List.flatMap_cons, bytes, List.append_assoc, Nat.add_assoc,
    ← List.drop_drop, List.drop_left, ← List.drop_drop, List.drop_left' List.length_replicate,
    List.drop_append]
  exact (hf.instant_prefix hfirst hj).trans (List.prefix_append _ _)

end IsAt

theorem aligned_nil (limit : ExactTime) (sync : ℚ) : Aligned limit sync [] := by
  rintro offset f j pts ⟨before, p, after, hsplit, -⟩
  simp at hsplit

theorem skipsPast_nil (sync : ℚ) : SkipsPast sync [] := by
  intro before p after hsplit
  simp at hsplit

/-! ## One more portion -/

theorem Aligned.concat {limit : ExactTime} {sync : ℚ} {portions : List (Portion ExactTime)}
    (haligned : Aligned limit sync portions) (p : Portion ExactTime)
    (hlast : ∀ pts, p.frame.pts = .finite pts → ∀ j : ℕ, p.first ≤ j →
      j < Audio.instants p.frame →
      .finite |sync + ((portions.flatMap bytes).length + p.silence +
          (j - p.first) * Audio.bytesPerInstant p.frame : ℕ) /
            Audio.bytesPerInstant p.frame / p.frame.stream.sampleRate -
          (pts + (j : ℚ) / p.frame.stream.sampleRate)| <
        MediaTime.later limit (.finite (1 / p.frame.stream.sampleRate))) :
    Aligned limit sync (portions ++ [p]) := by
  rintro offset f j pts ⟨before, q, after, hsplit, rfl, hfirst, hj, rfl⟩ hpts
  rcases FrameBuffer.concat_eq_append_cons_iff.mp hsplit with
    ⟨-, rfl, rfl⟩ | ⟨after, -, rfl⟩
  · exact hlast pts hpts j hfirst hj
  · exact haligned _ q.frame j pts ⟨before, q, after, rfl, rfl, hfirst, hj, rfl⟩ hpts

theorem SkipsPast.concat {sync : ℚ} {portions : List (Portion ExactTime)}
    (hskips : SkipsPast sync portions) (p : Portion ExactTime)
    (hlast : ∀ pts, p.frame.pts = .finite pts → ∀ j : ℕ, j < p.first →
      pts + (j : ℚ) / p.frame.stream.sampleRate <
        sync + ((portions.flatMap bytes).length : ℚ) / Audio.bytesPerInstant p.frame /
          p.frame.stream.sampleRate) :
    SkipsPast sync (portions ++ [p]) := by
  intro before q after hsplit pts hpts j hj
  rcases FrameBuffer.concat_eq_append_cons_iff.mp hsplit with
    ⟨-, rfl, rfl⟩ | ⟨after, -, rfl⟩
  · exact hlast pts hpts j hj
  · exact hskips before q after rfl pts hpts j hj

/-! ## The portion of a corrected frame -/

/-- Whole instants of silence if the frame is late, and whole instants less of it if it is early. -/
def corrected {T : Type} (f : DecodedFrame T) (drift : ℤ) : Portion T where
  frame := f
  silence := (-drift).toNat * Audio.bytesPerInstant f
  first := drift.toNat

section Corrected

variable {stream : Stream} {format : SampleFormat} {f : DecodedFrame ExactTime}
  (hf : Audio.IsFrameOf stream format f) (hrate : 1 ≤ stream.sampleRate)
  (hchannels : 1 ≤ stream.channelCount) {sync : ℚ} {limit : ExactTime} {k : ℕ}

include hf hchannels in
theorem bytes_corrected (drift : ℤ) :
    (corrected f drift).bytes =
      List.replicate (-(drift * Audio.bytesPerInstant f)).toNat 0 ++
        Audio.frameBytes f (drift * Audio.bytesPerInstant f).toNat := by
  have hchannels : 1 ≤ f.stream.channelCount := by rwa [hf.stream]
  rw [← Int.neg_mul, Audio.toNat_mul_natCast, Audio.toNat_mul_natCast,
    hf.whole.frameBytes_eq hchannels hf.sampleSize_pos]
  rfl

include hf in
theorem dvd_length_corrected (drift : ℤ) :
    Audio.bytesPerInstant f ∣ (corrected f drift).bytes.length := by
  rw [bytes, List.length_append, List.length_replicate]
  refine Nat.dvd_add (Nat.dvd_mul_left _ _) ?_
  change _ ∣ (Audio.instantsFrom f drift.toNat).length
  rw [hf.whole.length_instantsFrom]
  exact Nat.dvd_mul_left _ _

include hf hrate hchannels in
theorem near_corrected {pts : ℚ} (hpts : f.pts = .finite pts) {j : ℕ} {drift : ℤ}
    (hdrift : drift = Audio.drift (.finite sync) (k * Audio.bytesPerInstant f) f limit)
    (hj : (corrected f drift).first ≤ j) :
    .finite |sync + (k * Audio.bytesPerInstant f + (corrected f drift).silence +
        (j - (corrected f drift).first) * Audio.bytesPerInstant f : ℕ) /
          Audio.bytesPerInstant f / f.stream.sampleRate - (pts + (j : ℚ) / f.stream.sampleRate)| <
      MediaTime.later limit (.finite (1 / f.stream.sampleRate)) := by
  have hsize : (Audio.bytesPerInstant f : ℚ) ≠ 0 :=
    Nat.cast_ne_zero.mpr (Audio.bytesPerInstant_pos hf hchannels).ne'
  have hplace : ((k * Audio.bytesPerInstant f + (corrected f drift).silence +
      (j - (corrected f drift).first) * Audio.bytesPerInstant f : ℕ) : ℚ) /
        Audio.bytesPerInstant f = k - drift + j := by
    have hcount : ((k + (-drift).toNat + (j - drift.toNat) : ℕ) : ℤ) = k - drift + j := by
      have hj : drift.toNat ≤ j := hj
      omega
    rw [corrected, ← Nat.add_mul, ← Nat.add_mul, Nat.cast_mul, mul_div_cancel_right₀ _ hsize]
    exact_mod_cast hcount
  have hleft : .finite |sync + k / f.stream.sampleRate - pts - drift / f.stream.sampleRate| <
      MediaTime.later limit (.finite (1 / f.stream.sampleRate)) := by
    rw [hdrift]
    exact Audio.abs_sub_drift_lt hf hrate hchannels hpts
  rw [hplace]
  convert hleft using 3
  ring

include hf hrate hchannels in
theorem lt_of_lt_first_corrected {pts : ℚ} (hpts : f.pts = .finite pts) {j : ℕ} {drift : ℤ}
    (hdrift : drift = Audio.drift (.finite sync) (k * Audio.bytesPerInstant f) f limit)
    (hj : j < (corrected f drift).first) :
    pts + (j : ℚ) / f.stream.sampleRate <
      sync + ((k * Audio.bytesPerInstant f : ℕ) : ℚ) / Audio.bytesPerInstant f /
        f.stream.sampleRate := by
  have hsize : (Audio.bytesPerInstant f : ℚ) ≠ 0 :=
    Nat.cast_ne_zero.mpr (Audio.bytesPerInstant_pos hf hchannels).ne'
  have hpos : (0 : ℚ) < f.stream.sampleRate := by
    rw [hf.stream]
    exact_mod_cast hrate
  have hearly : (j : ℤ) < drift := by
    have hj : j < drift.toNat := hj
    omega
  have hreach : (drift : ℚ) / f.stream.sampleRate ≤ sync + k / f.stream.sampleRate - pts := by
    rw [hdrift] at hearly ⊢
    exact Audio.drift_le_of_pos hf hrate hchannels hpts (by omega)
  have hless : (j : ℚ) / f.stream.sampleRate < drift / f.stream.sampleRate :=
    div_lt_div_of_pos_right (by exact_mod_cast hearly) hpos
  rw [Nat.cast_mul, mul_div_cancel_right₀ _ hsize]
  linarith

end Corrected

/-- The portions of these frames make up these bytes, and every instant stands near its time. -/
structure Accounts (limit : ExactTime) (sync : ℚ) (frames : List (DecodedFrame ExactTime))
    (written : Bytes) (portions : List (Portion ExactTime)) : Prop where
  frames : portions.map Portion.frame = frames
  bytes : portions.flatMap Portion.bytes = written
  aligned : Aligned limit sync portions

theorem accounts_nil (limit : ExactTime) (sync : ℚ) : Accounts limit sync [] [] [] where
  frames := rfl
  bytes := rfl
  aligned := aligned_nil limit sync

end Portion

/-! ## Runs of the renderer -/

namespace AudioRenderer

open Portion

variable {D : Type} [AudioDevice D ExactTime] {settings : PipelineSettings ExactTime}
  {stream : Stream} {format : SampleFormat} {next : DecodedFrame ExactTime}
  {q s : AudioRenderer (Tape D ExactTime) ExactTime} {sync : ℚ}

omit [AudioDevice D ExactTime] in
/-- Playing one more frame adds one portion. If the device fails there is no more than silence, of
any length, and nothing is written after it. -/
theorem Plays.exists_portion (hplays : q.Plays settings next s)
    (hnext : Audio.IsFrameOf stream format next) (hrate : 1 ≤ stream.sampleRate)
    (hchannels : 1 ≤ stream.channelCount) (hsync : q.syncTime = .finite sync)
    (hwhole : Audio.bytesPerInstant next ∣ q.bytesWritten) {portions : List (Portion ExactTime)}
    (hcounted : q.bytesWritten = (portions.flatMap Portion.bytes).length)
    (haligned : Aligned settings.audioSyncLimit sync portions) :
    ∃ p : Portion ExactTime, p.frame = next ∧ q.Writes s p.bytes ∧
      Aligned settings.audioSyncLimit sync (portions ++ [p]) ∧
      (s.phase ≠ .exited → Audio.bytesPerInstant next ∣ p.bytes.length ∧
        (SkipsPast sync portions → SkipsPast sync (portions ++ [p]))) := by
  rcases hplays with ⟨adjust, hcorrection, hwrites⟩ | ⟨hexited, n, hwrites⟩
  · obtain ⟨k, hk⟩ := exists_eq_mul_left_of_dvd hwhole
    obtain ⟨hadjust, -⟩ := (Audio.syncBytes?_eq_some_iff hnext.sampleSize_pos).1 hcorrection
    generalize hdrift : Audio.drift q.syncTime q.bytesWritten next settings.audioSyncLimit = drift
      at hadjust
    rw [hsync, hk] at hdrift
    rw [hadjust, ← bytes_corrected hnext hchannels] at hwrites
    refine ⟨corrected next drift, rfl, hwrites, haligned.concat _ ?_, ?_⟩
    · intro pts hpts j hfirst _
      rw [← hcounted, hk]
      exact near_corrected hnext hrate hchannels hpts hdrift.symm hfirst
    · intro _
      refine ⟨dvd_length_corrected hnext drift, fun hskips => hskips.concat _ ?_⟩
      intro pts hpts j hj
      rw [← hcounted, hk]
      exact lt_of_lt_first_corrected hnext hrate hchannels hpts hdrift.symm hj
  · refine ⟨⟨next, n, Audio.instants next⟩, rfl, ?_, haligned.concat _ ?_, absurd hexited⟩
    · have hsilence : Portion.bytes ⟨next, n, Audio.instants next⟩ = List.replicate n 0 := by
        rw [Portion.bytes, Audio.instantsFrom_of_le (Nat.le_refl _), List.append_nil]
      rwa [hsilence]
    · intro pts _ j hfirst hj
      exact absurd hj (Nat.not_lt.mpr hfirst)

omit [AudioDevice D ExactTime] in
/-- The portions before a frame that is played: those of its take so far, or none. -/
theorem Begins.exists_portions {r : AudioRenderer (Tape D ExactTime) ExactTime}
    {t : Take ExactTime} {fresh : Bool} {size : ℕ} (hbegins : r.Begins fresh q)
    (hgoesOn : fresh = false → ∃ portions,
      Accounts settings.audioSyncLimit sync t.frames (r.device.accepted.drop t.mark) portions ∧
        size ∣ r.bytesWritten ∧ SkipsPast sync portions) :
    ∃ portions, Accounts settings.audioSyncLimit sync
        (t.opening r.device.accepted.length fresh).frames
        (q.device.accepted.drop (t.opening r.device.accepted.length fresh).mark) portions ∧
      size ∣ q.bytesWritten ∧ SkipsPast sync portions := by
  rw [hbegins.accepted]
  cases fresh with
  | false =>
      rw [(hbegins.goesOn rfl).1]
      exact hgoesOn rfl
  | true =>
      refine ⟨[], ?_, ?_, skipsPast_nil sync⟩
      · have hnone : r.device.accepted.drop r.device.accepted.length = [] := List.drop_length
        exact hnone.symm ▸ accounts_nil settings.audioSyncLimit sync
      · rw [hbegins.startsOver rfl]
        exact Nat.dvd_zero size

omit [AudioDevice D ExactTime] in
theorem Plays.exists_portions {t : Take ExactTime} (hplays : q.Plays settings next s)
    (hnext : Audio.IsFrameOf stream format next) (hrate : 1 ≤ stream.sampleRate)
    (hchannels : 1 ≤ stream.channelCount) (hsync : q.syncTime = .finite sync)
    (hcounts : q.Counts t)
    (hbefore : ∃ portions, Accounts settings.audioSyncLimit sync t.frames
        (q.device.accepted.drop t.mark) portions ∧
      Audio.bytesPerInstant next ∣ q.bytesWritten ∧ SkipsPast sync portions) :
    ∃ portions, Accounts settings.audioSyncLimit sync (t.add next).frames
        (s.device.accepted.drop t.mark) portions ∧
      (s.phase ≠ .exited →
        Audio.bytesPerInstant next ∣ s.bytesWritten ∧ SkipsPast sync portions) := by
  obtain ⟨portions, haccounts, hwhole, hskips⟩ := hbefore
  have hcounted : q.bytesWritten = (portions.flatMap Portion.bytes).length := by
    rw [haccounts.bytes, hcounts.counted]
  obtain ⟨p, hframe, hwrites, haligned, hsteady⟩ :=
    hplays.exists_portion hnext hrate hchannels hsync hwhole hcounted haccounts.aligned
  refine ⟨portions ++ [p], ⟨?_, ?_, haligned⟩, ?_⟩
  · rw [List.map_append, haccounts.frames, List.map_singleton, hframe]
    rfl
  · rw [List.flatMap_append, haccounts.bytes, List.flatMap_singleton]
    exact (hcounts.drop_accepted hwrites).symm
  · intro hphase
    obtain ⟨hlength, hlast⟩ := hsteady hphase
    refine ⟨?_, hlast hskips⟩
    rw [hwrites.bytesWritten]
    exact Nat.dvd_add hwhole hlength

/-- The last take of a run is made up of portions that stand in their places; unless the renderer
has ended, the next frame starts on a whole instant. -/
theorem exists_portions_record (settings : PipelineSettings ExactTime) (device : D)
    (acts : List (RenderAction ExactTime)) (hrate : 1 ≤ stream.sampleRate)
    (hchannels : 1 ≤ stream.channelCount)
    (hframes : ∀ f ∈ (take settings device acts).frames, Audio.IsFrameOf stream format f)
    (hsync : (record settings device acts).syncTime = .finite sync) :
    ∃ portions, Accounts settings.audioSyncLimit sync (take settings device acts).frames
        ((record settings device acts).device.accepted.drop (take settings device acts).mark)
        portions ∧
      ((record settings device acts).phase ≠ .exited →
        format.bytesPerSample * stream.channelCount ∣ (record settings device acts).bytesWritten ∧
          SkipsPast sync portions) := by
  induction acts using List.reverseRecOn with
  | nil => exact ⟨[], accounts_nil _ _, fun _ => ⟨Nat.dvd_zero _, skipsPast_nil sync⟩⟩
  | append_singleton acts a ih =>
      have hcounts := counts_record settings device acts
      rcases record_cases settings device acts a with
        ⟨hwrites, htake, hrunning⟩ | ⟨next, fresh, q, hrunning, hbegins, hplays, htake⟩
      · rw [htake] at hframes ⊢
        rw [hwrites.syncTime] at hsync
        obtain ⟨portions, haccounts, hsteady⟩ := ih hframes hsync
        refine ⟨portions, ?_, ?_⟩
        · rw [hcounts.drop_accepted hwrites, List.append_nil]
          exact haccounts
        · intro hphase
          rw [hwrites.bytesWritten]
          exact hsteady (hrunning hphase)
      · rw [htake] at hframes ⊢
        have hnext : Audio.IsFrameOf stream format next :=
          hframes next (List.mem_append_right _ (List.mem_singleton_self next))
        have hqsync : q.syncTime = .finite sync := by
          obtain ⟨data, hwrites⟩ := hplays.exists_writes
          rw [← hwrites.syncTime, hsync]
        rw [← hnext.bytesPerInstant_eq] at ih ⊢
        refine hplays.exists_portions hnext hrate hchannels hqsync (hcounts.opening hbegins)
          (hbegins.exists_portions ?_)
        -- The portions so far are needed, and exist, only if writing goes on.
        rintro rfl
        obtain ⟨portions, haccounts, hsteady⟩ := ih
          (fun f hf => hframes f (List.mem_append_left _ hf)) ((hbegins.goesOn rfl).2 ▸ hqsync)
        exact ⟨portions, haccounts, hsteady hrunning⟩

/-- Between two resyncs the device takes, for each frame that is played, silence and then the frame
from some instant on, and every instant stands within the limit, or within one instant, of its time.
The counter counts exactly these bytes, also where the device fails. -/
theorem written_aligned (settings : PipelineSettings ExactTime) (device : D)
    (acts : List (RenderAction ExactTime)) (hrate : 1 ≤ stream.sampleRate)
    (hchannels : 1 ≤ stream.channelCount)
    (hframes : ∀ f ∈ (take settings device acts).frames, Audio.IsFrameOf stream format f)
    (hsync : (record settings device acts).syncTime = .finite sync) :
    let r := record settings device acts
    let t := take settings device acts
    let written := r.device.accepted.drop t.mark
    r.bytesWritten = written.length ∧
      ∃ portions, Accounts settings.audioSyncLimit sync t.frames written portions ∧
        (∀ offset f j, IsAt portions offset f j → Audio.instant f j <+: written.drop offset) ∧
        (r.phase ≠ .exited → SkipsPast sync portions) := by
  dsimp only
  obtain ⟨portions, haccounts, hsteady⟩ :=
    exists_portions_record settings device acts hrate hchannels hframes hsync
  refine ⟨(counts_record settings device acts).counted, portions, haccounts, ?_, ?_⟩
  · intro offset f j hat
    have hf : Audio.IsFrameOf stream format f := hframes f (haccounts.frames ▸ hat.mem_map_frame)
    rw [← haccounts.bytes]
    exact hat.instant_prefix hf.whole
  · intro hphase
    exact (hsteady hphase).2

/-- Two channels at four instants a second. -/
def stereo (time : ℚ) (left right : Bytes) : DecodedFrame ExactTime :=
  .audio (.audio 0 "pcm" 4 2) (.finite time) (.finite time) (.finite (left.length / 4))
    ⟨.planar, .u8⟩ left.length [left, right]

/-- A frame, one after a gap of half a second, and one that starts before that one has ended. -/
def gapAndOverlap : List (DecodedFrame ExactTime) :=
  [stereo 0 [1, 2] [3, 4], stereo 1 [5, 6] [7, 8], stereo (5 / 4) [9, 10] [11, 12]]

/-- As many steps at the start of the media as there are frames. -/
def playAtStart (fs : List (DecodedFrame ExactTime)) : List (RenderAction ExactTime) :=
  .setPlayer true :: .attach 0 :: List.replicate fs.length
    (.step 0 (some ⟨0, 1, .playing⟩) (some ((FrameBuffer.empty .pts).addAll fs)) 0)

/-- Two instants of silence are written and one of the last frame is left out. -/
theorem written_aligned_gapAndOverlap :
    let r := record .default (.new 0 : Playout ExactTime) (playAtStart gapAndOverlap)
    let t := take .default (.new 0 : Playout ExactTime) (playAtStart gapAndOverlap)
    let written := r.device.accepted.drop t.mark
    written = [1, 3, 2, 4, 0, 0, 0, 0, 5, 7, 6, 8, 10, 12] ∧ r.bytesWritten = written.length ∧
      ∃ portions, Accounts PipelineSettings.default.audioSyncLimit 0 t.frames written portions ∧
        (∀ offset f j, IsAt portions offset f j → Audio.instant f j <+: written.drop offset) ∧
        (r.phase ≠ .exited → SkipsPast 0 portions) := by
  have hframes : ∀ f ∈ (take .default (.new 0 : Playout ExactTime)
      (playAtStart gapAndOverlap)).frames,
      Audio.IsFrameOf (.audio 0 "pcm" 4 2) ⟨.planar, .u8⟩ f := by
    have htake : (take .default (.new 0 : Playout ExactTime) (playAtStart gapAndOverlap)).frames =
        gapAndOverlap := by decide +kernel
    have hchecked : ∀ f ∈ gapAndOverlap, f.stream = .audio 0 "pcm" 4 2 ∧
        f.format = .audio ⟨.planar, .u8⟩ ∧ Audio.IsWhole f := by decide +kernel
    intro f hf
    rw [htake] at hf
    obtain ⟨hstream, hformat, hwhole⟩ := hchecked f hf
    exact ⟨hstream, hformat, hwhole⟩
  have hsync : (record .default (.new 0 : Playout ExactTime)
      (playAtStart gapAndOverlap)).syncTime = .finite 0 := by decide +kernel
  have haligned := written_aligned .default (.new 0 : Playout ExactTime)
    (playAtStart gapAndOverlap) (by decide) (by decide) hframes hsync
  exact ⟨by decide +kernel, haligned⟩

end AudioRenderer

end MediaPipeline
