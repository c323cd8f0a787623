import MediaPipeline.Audio.Renderer
import MediaPipeline.Proofs.Audio.Drift

/-!
# Planar audio as packed audio

The planes of a frame need not have one length. The shortest of those that are used says how many
instants there are; what the others have more is not heard. Skipping instants of the planes comes to
the same as skipping bytes of the plane that they make when they are interleaved.
-/

namespace MediaPipeline

namespace Audio

variable {T : Type} {sample : SampleType} {f : DecodedFrame T} {k j : ℕ}

/-- Planar audio with a plane for every channel. There may be more planes, of any lengths. -/
structure IsPlanar (sample : SampleType) (f : DecodedFrame T) : Prop where
  format : f.format = .audio ⟨.planar, sample⟩
  channels : 1 ≤ f.stream.channelCount
  planes : f.stream.channelCount ≤ f.planes.length

/-- The instants that every plane in use holds. -/
def heldInstants (f : DecodedFrame T) : ℕ := shortest (soundPlanes f) / stride f

theorem le_length_of_lt_heldInstants {plane : Bytes} (hplane : plane ∈ soundPlanes f)
    (hj : j < heldInstants f) : (j + 1) * stride f ≤ plane.length :=
  calc
    (j + 1) * stride f ≤ heldInstants f * stride f := Nat.mul_le_mul_right _ hj
    _ ≤ shortest (soundPlanes f) := Nat.div_mul_le_self _ _
    _ ≤ plane.length := shortest_le hplane

namespace IsPlanar

variable (hf : IsPlanar sample f)

include hf

theorem isPlanar : f.format.isPlanar = true := by
  rw [hf.format]
  rfl

theorem sampleSize_pos : 0 < f.format.sampleSize := by
  rw [hf.format]
  exact SampleFormat.bytesPerSample_pos _

theorem soundPlanes_eq : soundPlanes f = f.planes.take f.stream.channelCount := by
  simp [soundPlanes, hf.isPlanar]

theorem stride_eq : stride f = f.format.sampleSize := by
  simp [stride, hf.isPlanar]

theorem length_soundPlanes : (soundPlanes f).length = f.stream.channelCount := by
  rw [hf.soundPlanes_eq, List.length_take, Nat.min_eq_left hf.planes]

theorem interleave_eq (k : ℕ) :
    interleave f (k * bytesPerInstant f) =
      (List.range' k (heldInstants f - k)).flatMap (instant f) :=
  Audio.interleave_eq hf.isPlanar hf.channels hf.sampleSize_pos hf.planes k

theorem length_instant (hj : j < heldInstants f) : (instant f j).length = bytesPerInstant f := by
  rw [Audio.length_instant f fun plane hplane => le_length_of_lt_heldInstants hplane hj,
    hf.length_soundPlanes, hf.stride_eq, bytesPerInstant, Nat.mul_comm]

theorem length_of_mem_range' {n : ℕ} (hn : n ≤ heldInstants f - k) :
    ∀ i ∈ List.range' k n, (instant f i).length = bytesPerInstant f := by
  intro i hi
  rw [List.mem_range'_1] at hi
  exact hf.length_instant (by omega)

theorem length_interleave (k : ℕ) :
    (interleave f (k * bytesPerInstant f)).length = (heldInstants f - k) * bytesPerInstant f := by
  rw [hf.interleave_eq, length_flatMap_of_length (hf.length_of_mem_range' (Nat.le_refl _)),
    List.length_range']

/-- Byte `b` of channel `c` in instant `j`. -/
theorem getElem?_instant (hj : j < heldInstants f) {c b : ℕ} (hb : b < f.format.sampleSize) :
    (instant f j)[c * f.format.sampleSize + b]? =
      (soundPlanes f)[c]?.bind fun plane => plane[j * f.format.sampleSize + b]? := by
  rw [← hf.stride_eq] at hb ⊢
  rw [instant, getElem?_flatMap_of_length _ hb]
  · simp [List.getElem?_take_of_lt hb]
  · intro plane hplane
    have hroom := le_length_of_lt_heldInstants hplane hj
    rw [Nat.succ_mul] at hroom
    rw [List.length_take, List.length_drop]
    omega

/-- The samples of an instant stand side by side in the order of the channels, and the instants one
after the other from the first that is not skipped. -/
theorem getElem?_interleave (hj : k + j < heldInstants f) {c b : ℕ}
    (hc : c < f.stream.channelCount) (hb : b < f.format.sampleSize) :
    (interleave f (k * bytesPerInstant f))[
        (j * f.stream.channelCount + c) * f.format.sampleSize + b]? =
      (soundPlanes f)[c]?.bind fun plane => plane[(k + j) * f.format.sampleSize + b]? := by
  have hplace : (j * f.stream.channelCount + c) * f.format.sampleSize + b =
      j * bytesPerInstant f + (c * f.format.sampleSize + b) := by
    rw [bytesPerInstant]
    ring
  have hinside : c * f.format.sampleSize + b < bytesPerInstant f := by
    have hnext : (c + 1) * f.format.sampleSize ≤ f.stream.channelCount * f.format.sampleSize :=
      Nat.mul_le_mul_right _ hc
    rw [Nat.succ_mul] at hnext
    rw [bytesPerInstant, Nat.mul_comm f.format.sampleSize]
    omega
  have hinstant : (List.range' k (heldInstants f - k))[j]? = some (k + j) := by
    rw [List.getElem?_range' (by omega), Nat.one_mul]
  rw [hplace, hf.interleave_eq,
    getElem?_flatMap_of_length (hf.length_of_mem_range' (Nat.le_refl _)) hinside, hinstant,
    Option.bind_some, hf.getElem?_instant hj hb]

theorem exists_byte (hj : k + j < heldInstants f) {c b : ℕ} (hc : c < f.stream.channelCount)
    (hb : b < f.format.sampleSize) :
    ∃ plane byte, f.planes[c]? = some plane ∧
      plane[(k + j) * f.format.sampleSize + b]? = some byte ∧
      (interleave f (k * bytesPerInstant f))[
        (j * f.stream.channelCount + c) * f.format.sampleSize + b]? = some byte := by
  have hchannel : c < (soundPlanes f).length := by rwa [hf.length_soundPlanes]
  obtain ⟨plane, hplane⟩ : ∃ plane, (soundPlanes f)[c]? = some plane :=
    ⟨_, List.getElem?_eq_getElem hchannel⟩
  have hroom := le_length_of_lt_heldInstants (List.mem_of_getElem? hplane) hj
  rw [hf.stride_eq, Nat.succ_mul] at hroom
  have hbyte : (k + j) * f.format.sampleSize + b < plane.length := by omega
  refine ⟨plane, _, ?_, List.getElem?_eq_getElem hbyte, ?_⟩
  · rwa [hf.soundPlanes_eq, List.getElem?_take_of_lt hc] at hplane
  · rw [hf.getElem?_interleave hj hc hb, hplane, Option.bind_some, List.getElem?_eq_getElem hbyte]

/-- Skipping instants is skipping bytes of the interleaved audio. -/
theorem interleave_eq_drop (k : ℕ) :
    interleave f (k * bytesPerInstant f) = (interleave f 0).drop (k * bytesPerInstant f) := by
  have hall : interleave f 0 = (List.range' 0 (heldInstants f)).flatMap (instant f) := by
    simpa using hf.interleave_eq 0
  rcases Nat.le_total (heldInstants f) k with hk | hk
  · have hlength : (interleave f 0).length ≤ k * bytesPerInstant f := by
      have hlength := hf.length_interleave 0
      rw [Nat.zero_mul, Nat.sub_zero] at hlength
      exact hlength ▸ Nat.mul_le_mul_right _ hk
    rw [hf.interleave_eq, Nat.sub_eq_zero_of_le hk, List.drop_of_length_le hlength]
    rfl
  · have hsplit := List.range'_append_1 (s := 0) (m := k) (n := heldInstants f - k)
    rw [Nat.zero_add, Nat.add_sub_cancel' hk] at hsplit
    have hskipped : ((List.range' 0 k).flatMap (instant f)).length = k * bytesPerInstant f := by
      rw [length_flatMap_of_length (hf.length_of_mem_range' hk), List.length_range']
    rw [hall, ← hsplit, List.flatMap_append, List.drop_left' hskipped, hf.interleave_eq]

end IsPlanar

end Audio

namespace AudioRenderer

open Audio

variable {D T : Type} [MediaTime T] [AudioDevice D T] {sample : SampleType} {f g : DecodedFrame T}

omit [MediaTime T] in
theorem writeFrame_congr {r : AudioRenderer D T} {now skip : ℕ}
    (hbytes : frameBytes f skip = frameBytes g skip) :
    r.writeFrame now f skip = r.writeFrame now g skip := by
  rw [writeFrame, writeFrame, hbytes]

omit [MediaTime T] in
theorem writeFrame_eq_ite (r : AudioRenderer D T) (now : ℕ) (f : DecodedFrame T) (skip : ℕ) :
    r.writeFrame now f skip =
      if 0 < (frameBytes f skip).length then r.append now (frameBytes f skip) else .ok r := by
  unfold writeFrame
  cases frameBytes f skip <;> simp

/-- Of planar audio the device is given the instants from `k` on, as far as every plane in use goes,
exactly as if the interleaved plane had been skipped over by as many bytes, and nothing if no
instant is left. What is to be skipped is always a number of instants; only a drift of more bytes
than a word counts comes to no skip at all. -/
theorem planar_written_as_packed (r : AudioRenderer D T) (now : ℕ) (hf : IsPlanar sample f)
    (hg : g.format = .audio ⟨.packed, sample⟩) (hplane : g.planes = [interleave f 0]) (k : ℕ) :
    let size := f.format.sampleSize
    let channels := f.stream.channelCount
    let skip := k * bytesPerInstant f
    ∃ n, ((f.planes.take channels).map List.length).min?.map (· / size) = some n ∧
      (interleave f skip).length = (n - k) * (channels * size) ∧
      (∀ j c b, k + j < n → c < channels → b < size →
        ∃ plane byte, f.planes[c]? = some plane ∧ plane[(k + j) * size + b]? = some byte ∧
          (interleave f skip)[(j * channels + c) * size + b]? = some byte) ∧
      r.writeFrame now f skip = r.writeFrame now g skip ∧
      r.writeFrame now f skip = (if k < n then r.append now (interleave f skip) else .ok r) ∧
      ∀ syncTime bytesWritten limit,
        (syncBytes? syncTime bytesWritten f limit = none ↔
          ¬ IsWord (drift syncTime bytesWritten f limit * bytesPerInstant f)) ∧
        ∀ adjust, syncBytes? syncTime bytesWritten f limit = some adjust → 0 < adjust →
          ∃ m : ℕ, 0 < m ∧ adjust = (m * bytesPerInstant f : ℕ) := by
  intro size channels skip
  have hsize : bytesPerInstant f = channels * size := Nat.mul_comm _ _
  have hbytes : frameBytes f skip = interleave f skip := by simp [frameBytes, hf.isPlanar]
  refine ⟨heldInstants f, ?_, ?_, ?_, ?_, ?_, ?_⟩
  · have hne : soundPlanes f ≠ [] := by
      rw [← List.length_pos_iff, hf.length_soundPlanes]
      exact hf.channels
    rw [← hf.soundPlanes_eq, min?_length hne, Option.map_some, heldInstants, hf.stride_eq]
  · rw [hf.length_interleave, hsize]
  · intro j c b hj hc hb
    exact hf.exists_byte hj hc hb
  · apply writeFrame_congr
    rw [hbytes, frameBytes, hg, hplane]
    exact hf.interleave_eq_drop k
  · have hsome : 0 < (interleave f skip).length ↔ k < heldInstants f := by
      have hpos : 0 < bytesPerInstant f := Nat.mul_pos hf.sampleSize_pos hf.channels
      rw [hf.length_interleave, Nat.mul_pos_iff_of_pos_right hpos, Nat.sub_pos_iff_lt]
    rw [writeFrame_eq_ite, hbytes]
    simp only [hsome]
  · intro syncTime bytesWritten limit
    refine ⟨syncBytes?_eq_none_iff hf.sampleSize_pos, ?_⟩
    intro adjust hadjust hpos
    obtain ⟨rfl, -⟩ := (syncBytes?_eq_some_iff hf.sampleSize_pos).1 hadjust
    have hdrift : 0 < drift syncTime bytesWritten f limit :=
      pos_of_mul_pos_left hpos (Int.natCast_nonneg _)
    refine ⟨(drift syncTime bytesWritten f limit).toNat, by omega, ?_⟩
    rw [Nat.cast_mul, Int.toNat_of_nonneg (by omega)]

/-- Two channels of samples of two bytes, one of them with half a sample too much, the other with a
whole one, and a plane that is not used. -/
def raggedStereo : DecodedFrame Float :=
  .audio (.audio 0 "pcm" 2 2) 0 0 1 ⟨.planar, .s16⟩ 2
    [[1, 2, 3, 4, 5], [6, 7, 8, 9, 10, 11], [12]]

/-- Half a sample of the first plane and the last sample of the second are not written. -/
theorem planar_written_as_packed_raggedStereo :
    IsPlanar .s16 raggedStereo ∧ interleave raggedStereo 4 = [3, 4, 8, 9] ∧
      ∀ r : AudioRenderer (Playout Float) Float,
        r.writeFrame 0 raggedStereo 4 =
          r.writeFrame 0 { raggedStereo with
            format := .audio ⟨.packed, .s16⟩, planes := [interleave raggedStereo 0] } 4 := by
  have hplanar : IsPlanar .s16 raggedStereo := ⟨rfl, by decide, by decide⟩
  refine ⟨hplanar, by decide, fun r => ?_⟩
  obtain ⟨n, -, -, -, hwritten, -⟩ := planar_written_as_packed r 0 hplanar
    (g := { raggedStereo with
      format := .audio ⟨.packed, .s16⟩, planes := [interleave raggedStereo 0] }) rfl rfl 1
  exact hwritten

end AudioRenderer

end MediaPipeline
