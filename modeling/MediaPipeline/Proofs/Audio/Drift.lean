import MediaPipeline.Proofs.Audio.Samples
import MediaPipeline.Proofs.Time.Exact

/-!
# The drift of a frame

In exact arithmetic what is left of the distance between the written audio and a frame, once the
frame has been corrected by its drift, is within the limit or within one instant.
-/

namespace MediaPipeline

/-- A frame of whole samples of this stream and format. -/
structure Audio.IsFrameOf {T : Type} (stream : Stream) (format : SampleFormat)
    (f : DecodedFrame T) : Prop where
  stream : f.stream = stream
  format : f.format = .audio format
  whole : Audio.IsWhole f

namespace Audio

variable {T : Type}

theorem toNat_mul_natCast (d : ℤ) (b : ℕ) : (d * b).toNat = d.toNat * b := by
  rcases le_total 0 d with hd | hd
  · obtain ⟨n, rfl⟩ := Int.eq_ofNat_of_zero_le hd
    rw [← Int.natCast_mul, Int.toNat_natCast, Int.toNat_natCast]
  · rw [Int.toNat_of_nonpos hd, Nat.zero_mul]
    exact Int.toNat_of_nonpos (Int.mul_nonpos_of_nonpos_of_nonneg hd (Int.natCast_nonneg b))

theorem mulWord?_eq_some_iff {m n k : ℤ} : mulWord? m n = some k ↔ m * n = k ∧ IsWord k := by
  unfold mulWord?
  split_ifs with hword
  · rw [Option.some_inj]
    exact ⟨fun h => ⟨h, h ▸ hword⟩, And.left⟩
  · refine ⟨fun h => absurd h (by simp), ?_⟩
    rintro ⟨rfl, hk⟩
    exact absurd hk hword

theorem IsWord.of_mul {n : ℤ} {b : ℕ} (hn : IsWord (n * b)) (hb : 0 < b) : IsWord n := by
  have habs : |n| ≤ |n * b| := by
    rw [abs_mul, Nat.abs_cast]
    exact le_mul_of_one_le_right (abs_nonneg n) (by exact_mod_cast hb)
  unfold IsWord at hn ⊢
  rcases le_total 0 n with h | h
  · have hle := le_mul_of_one_le_right h (show (1 : ℤ) ≤ b by exact_mod_cast hb)
    omega
  · have hle := mul_le_of_one_le_right h (show (1 : ℤ) ≤ b by exact_mod_cast hb)
    omega

/-- A correction is the drift in bytes. If that is a word, the drift in samples is one too. -/
theorem syncBytes?_eq_some_iff [MediaTime T] {syncTime limit : T} {bytesWritten : ℕ}
    {f : DecodedFrame T} {n : ℤ} (hsize : 0 < f.format.sampleSize) :
    syncBytes? syncTime bytesWritten f limit = some n ↔
      n = drift syncTime bytesWritten f limit * bytesPerInstant f ∧ IsWord n := by
  have hbytes : drift syncTime bytesWritten f limit * bytesPerInstant f =
      drift syncTime bytesWritten f limit * f.stream.channelCount * f.format.sampleSize := by
    rw [bytesPerInstant]
    push_cast
    ring
  rw [hbytes]
  simp only [syncBytes?, Option.bind_eq_bind, Option.bind_eq_some_iff, mulWord?_eq_some_iff]
  constructor
  · rintro ⟨samples, ⟨rfl, -⟩, rfl, hn⟩
    exact ⟨rfl, hn⟩
  · rintro ⟨rfl, hn⟩
    exact ⟨_, ⟨rfl, hn.of_mul hsize⟩, rfl, hn⟩

theorem syncBytes?_eq_none_iff [MediaTime T] {syncTime limit : T} {bytesWritten : ℕ}
    {f : DecodedFrame T} (hsize : 0 < f.format.sampleSize) :
    syncBytes? syncTime bytesWritten f limit = none ↔
      ¬ IsWord (drift syncTime bytesWritten f limit * bytesPerInstant f) := by
  simp [Option.eq_none_iff_forall_ne_some, syncBytes?_eq_some_iff hsize]

section Drift

variable {stream : Stream} {format : SampleFormat} {f : DecodedFrame ExactTime}

theorem IsFrameOf.sampleSize_pos {T : Type} {f : DecodedFrame T} (hf : IsFrameOf stream format f) :
    0 < f.format.sampleSize := by
  rw [hf.format]
  exact format.bytesPerSample_pos

theorem IsFrameOf.bytesPerInstant_eq {T : Type} {f : DecodedFrame T}
    (hf : IsFrameOf stream format f) :
    bytesPerInstant f = format.bytesPerSample * stream.channelCount := by
  rw [bytesPerInstant, hf.format, hf.stream]
  rfl

theorem bytesPerInstant_pos {T : Type} {f : DecodedFrame T} (hf : IsFrameOf stream format f)
    (hchannels : 1 ≤ stream.channelCount) : 0 < bytesPerInstant f := by
  refine Nat.mul_pos hf.sampleSize_pos ?_
  rwa [hf.stream]

variable (hf : IsFrameOf stream format f) (hrate : 1 ≤ stream.sampleRate)
  (hchannels : 1 ≤ stream.channelCount) {sync pts : ℚ} {limit : ExactTime} {k : ℕ}

include hf hrate hchannels in
theorem bytesToSeconds_mul (k : ℕ) :
    bytesToSeconds f (k * bytesPerInstant f) = .finite (k / f.stream.sampleRate) := by
  have hsize := bytesPerInstant_pos hf hchannels
  have hrate : f.stream.sampleRate ≠ 0 := by
    rw [hf.stream]
    omega
  unfold bytesToSeconds
  rw [if_neg (by omega), Nat.mul_div_cancel _ hsize]
  rfl

include hf hrate hchannels in
/-- How far the written audio is ahead, in whole instants unless it is within the limit. -/
theorem drift_eq (hpts : f.pts = .finite pts) :
    drift (.finite sync) (k * bytesPerInstant f) f limit =
      if .finite |sync + k / f.stream.sampleRate - pts| < limit then 0
      else MediaTime.truncate
        (.finite ((sync + k / f.stream.sampleRate - pts) * f.stream.sampleRate) : ExactTime) := by
  unfold drift
  rw [bytesToSeconds_mul hf hrate hchannels, hpts]
  have hahead : (.finite sync + .finite (k / f.stream.sampleRate) - .finite pts : ExactTime) =
      .finite (sync + k / f.stream.sampleRate - pts) :=
    congrArg ExactTime.finite (sub_eq_add_neg _ _).symm
  dsimp only
  rw [hahead, ExactTime.abs_finite]
  rfl

include hf hrate hchannels in
/-- What is left of the distance is within the limit or within an instant. -/
theorem abs_sub_drift_lt (hpts : f.pts = .finite pts) :
    .finite |sync + k / f.stream.sampleRate - pts -
        drift (.finite sync) (k * bytesPerInstant f) f limit / f.stream.sampleRate| <
      MediaTime.later limit (.finite (1 / f.stream.sampleRate)) := by
  have hpos : (0 : ℚ) < f.stream.sampleRate := by
    rw [hf.stream]
    exact_mod_cast hrate
  rw [drift_eq hf hrate hchannels hpts]
  generalize sync + k / f.stream.sampleRate - pts = ahead
  split_ifs with hwithin
  · rw [Int.cast_zero, zero_div, sub_zero]
    exact ExactTime.lt_later_left hwithin
  · refine ExactTime.lt_later_right ?_
    rw [ExactTime.finite_lt_finite]
    calc
      |ahead - MediaTime.truncate (.finite (ahead * f.stream.sampleRate) : ExactTime) /
          f.stream.sampleRate| =
          |ahead * f.stream.sampleRate -
            MediaTime.truncate (.finite (ahead * f.stream.sampleRate) : ExactTime)| /
              f.stream.sampleRate := by
        rw [← abs_of_pos hpos, ← abs_div, abs_of_pos hpos, sub_div,
          mul_div_cancel_right₀ _ hpos.ne']
      _ < 1 / f.stream.sampleRate :=
        div_lt_div_of_pos_right (ExactTime.abs_sub_truncate_lt _) hpos

include hf hrate hchannels in
theorem drift_le_of_pos (hpts : f.pts = .finite pts)
    (hdrift : 0 < drift (.finite sync) (k * bytesPerInstant f) f limit) :
    (drift (.finite sync) (k * bytesPerInstant f) f limit : ℚ) / f.stream.sampleRate ≤
      sync + k / f.stream.sampleRate - pts := by
  have hpos : (0 : ℚ) < f.stream.sampleRate := by
    rw [hf.stream]
    exact_mod_cast hrate
  rw [drift_eq hf hrate hchannels hpts] at hdrift ⊢
  split_ifs at hdrift ⊢
  · exact absurd hdrift (lt_irrefl 0)
  · exact (div_le_iff₀ hpos).mpr (ExactTime.truncate_le_of_pos hdrift)

end Drift

end Audio

end MediaPipeline
