import Mathlib.Data.List.Basic
import MediaPipeline.Audio.Alignment

/-!
# The instants of a frame

Interleaved audio is a sequence of instants, each of them one sample of every channel side by side.
A frame of whole samples is written as its instants from some instant on, in order. Packed audio is
the case of one plane that holds whole instants.
-/

namespace MediaPipeline

theorem SampleFormat.bytesPerSample_pos (format : SampleFormat) : 0 < format.bytesPerSample := by
  unfold bytesPerSample
  cases format.sample <;> decide

namespace Audio

variable {T : Type}

def soundPlanes (f : DecodedFrame T) : List Bytes :=
  f.planes.take (if f.format.isPlanar then f.stream.channelCount else 1)

/-- Bytes of one instant in one plane. -/
def stride (f : DecodedFrame T) : Nat :=
  if f.format.isPlanar then f.format.sampleSize else bytesPerInstant f

/-- How many instants the first plane holds. -/
def instants (f : DecodedFrame T) : Nat := (f.planes.headD []).length / stride f

/-- The bytes of instant `j`. -/
def instant (f : DecodedFrame T) (j : Nat) : Bytes :=
  (soundPlanes f).flatMap fun plane => (plane.drop (j * stride f)).take (stride f)

/-- The instants from `first` on, interleaved. -/
def instantsFrom (f : DecodedFrame T) (first : Nat) : Bytes :=
  (List.range' first (instants f - first)).flatMap (instant f)

/-- Whole samples in planes of one length; planar audio has a plane for each channel. -/
def IsWhole (f : DecodedFrame T) : Prop :=
  (f.format.isPlanar → f.stream.channelCount ≤ f.planes.length) ∧
    ∀ plane ∈ soundPlanes f, plane.length = instants f * stride f

instance (f : DecodedFrame T) : Decidable (IsWhole f) := inferInstanceAs (Decidable (_ ∧ _))

/-! ## Blocks of one length -/

section Blocks

variable {α β : Type} {xs : List α} {g : α → List β} {size : Nat}

theorem length_flatMap_of_length (hg : ∀ x ∈ xs, (g x).length = size) :
    (xs.flatMap g).length = xs.length * size := by
  rw [List.length_flatMap, List.map_congr_left hg, List.map_const', List.sum_replicate_nat]

theorem getElem?_flatMap_of_length (hg : ∀ x ∈ xs, (g x).length = size) {b : Nat} (hb : b < size)
    (i : Nat) : (xs.flatMap g)[i * size + b]? = xs[i]?.bind fun x => (g x)[b]? := by
  induction xs generalizing i with
  | nil => rfl
  | cons x xs ih =>
      obtain ⟨hx, hxs⟩ := List.forall_mem_cons.mp hg
      rw [List.flatMap_cons]
      cases i with
      | zero => simp [List.getElem?_append_left (show b < (g x).length by omega)]
      | succ i =>
          have hpast : (i + 1) * size + b = (g x).length + (i * size + b) := by
            rw [hx, Nat.succ_mul]
            omega
          rw [hpast, List.getElem?_append_right (Nat.le_add_right _ _), Nat.add_sub_cancel_left,
            List.getElem?_cons_succ]
          exact ih hxs i

end Blocks

/-! ## Planes as columns -/

theorem drop_drop_stride (size k : Nat) (plane : Bytes) :
    (plane.drop (k * size)).drop size = plane.drop ((k + 1) * size) := by
  rw [List.drop_drop, Nat.succ_mul]

/-- Interleaving goes through the planes side by side, one step at a time. -/
theorem interleaveSamples_eq (size : Nat) (planes : List Bytes) (k n : Nat) :
    interleaveSamples size n (planes.map (List.drop (k * size))) =
      (List.range' k n).flatMap fun j =>
        planes.flatMap fun plane => (plane.drop (j * size)).take size := by
  induction n generalizing k with
  | zero => rfl
  | succ n ih =>
      have hnext : (planes.map (List.drop (k * size))).map (List.drop size) =
          planes.map (List.drop ((k + 1) * size)) := by
        rw [List.map_map]
        exact List.map_congr_left fun plane _ => drop_drop_stride size k plane
      rw [interleaveSamples, hnext, ih, List.flatMap_map]
      rfl

theorem interleaveSamples_singleton (size n : Nat) (plane : Bytes)
    (hlength : plane.length = n * size) : interleaveSamples size n [plane] = plane := by
  induction n generalizing plane with
  | zero =>
      rw [Nat.zero_mul] at hlength
      exact (List.eq_nil_of_length_eq_zero hlength).symm
  | succ n ih =>
      have hrest : (plane.drop size).length = n * size := by
        rw [List.length_drop, hlength, Nat.succ_mul, Nat.add_sub_cancel]
      have hcut : interleaveSamples size (n + 1) [plane] =
          plane.take size ++ interleaveSamples size n [plane.drop size] := by
        simp [interleaveSamples]
      rw [hcut, ih _ hrest, List.take_append_drop]

theorem min?_length {planes : List Bytes} (hne : planes ≠ []) :
    (planes.map List.length).min? = some (shortest planes) := by
  obtain ⟨first, rest, rfl⟩ := List.exists_cons_of_ne_nil hne
  rw [List.map_cons, List.min?_cons', List.foldl_map, shortest]

theorem shortest_le {planes : List Bytes} {plane : Bytes} (hplane : plane ∈ planes) :
    shortest planes ≤ plane.length := by
  have hmin := min?_length (List.ne_nil_of_mem hplane)
  exact (List.min?_eq_some_iff.mp hmin).2 _ (List.mem_map_of_mem hplane)

theorem shortest_eq {planes : List Bytes} {length : Nat} (hne : planes ≠ [])
    (hplanes : ∀ plane ∈ planes, plane.length = length) : shortest planes = length := by
  obtain ⟨plane, hplane, hlength⟩ :=
    List.mem_map.mp (List.min?_eq_some_iff.mp (min?_length hne)).1
  rw [← hlength, hplanes plane hplane]

/-! ## What is written of a frame -/

theorem instantsFrom_eq (f : DecodedFrame T) (first : Nat) :
    instantsFrom f first = interleaveSamples (stride f) (instants f - first)
      ((soundPlanes f).map (List.drop (first * stride f))) :=
  (interleaveSamples_eq (stride f) (soundPlanes f) first (instants f - first)).symm

theorem instantsFrom_of_le {f : DecodedFrame T} {first : Nat} (hfirst : instants f ≤ first) :
    instantsFrom f first = [] := by
  rw [instantsFrom, Nat.sub_eq_zero_of_le hfirst]
  rfl

section Planar

variable {f : DecodedFrame T}

/-- Planar audio is written as far as the shortest plane in use goes. -/
theorem interleave_eq (hplanar : f.format.isPlanar = true) (hchannels : 1 ≤ f.stream.channelCount)
    (hsize : 0 < f.format.sampleSize) (hplanes : f.stream.channelCount ≤ f.planes.length)
    (first : Nat) :
    interleave f (first * bytesPerInstant f) =
      (List.range' first (shortest (soundPlanes f) / stride f - first)).flatMap (instant f) := by
  have hsound : soundPlanes f = f.planes.take f.stream.channelCount := by
    simp [soundPlanes, hplanar]
  have hstride : stride f = f.format.sampleSize := by simp [stride, hplanar]
  have hskipped :
      first * bytesPerInstant f / f.stream.channelCount / f.format.sampleSize = first := by
    rw [bytesPerInstant, ← Nat.mul_assoc, Nat.mul_div_cancel _ hchannels,
      Nat.mul_div_cancel _ hsize]
  have hsounds : ¬ (f.stream.channelCount = 0 ∨ f.format.sampleSize = 0 ∨
      f.planes.length < f.stream.channelCount) := by omega
  simp only [interleave, if_neg hsounds, hskipped, ← hsound]
  rw [← hstride]
  exact interleaveSamples_eq (stride f) (soundPlanes f) first _

theorem length_instant (f : DecodedFrame T) {j : Nat}
    (hroom : ∀ plane ∈ soundPlanes f, (j + 1) * stride f ≤ plane.length) :
    (instant f j).length = (soundPlanes f).length * stride f := by
  refine length_flatMap_of_length fun plane hplane => ?_
  have hplane := hroom plane hplane
  rw [Nat.succ_mul] at hplane
  rw [List.length_take, List.length_drop]
  omega

end Planar

section Whole

variable {f : DecodedFrame T}

theorem IsWhole.frameBytes_planar (hf : IsWhole f) (hchannels : 1 ≤ f.stream.channelCount)
    (hsize : 0 < f.format.sampleSize) (hplanar : f.format.isPlanar = true) (first : Nat) :
    interleave f (first * bytesPerInstant f) = instantsFrom f first := by
  have hplanes : f.stream.channelCount ≤ f.planes.length := hf.1 hplanar
  have hstride : 0 < stride f := by simpa [stride, hplanar] using hsize
  have hshortest : shortest (soundPlanes f) = instants f * stride f := by
    refine shortest_eq ?_ hf.2
    rw [soundPlanes, if_pos hplanar, ← List.length_pos_iff, List.length_take]
    omega
  rw [interleave_eq hplanar hchannels hsize hplanes, hshortest, Nat.mul_div_cancel _ hstride,
    instantsFrom]

theorem IsWhole.drop_packed (hf : IsWhole f) (hpacked : f.format.isPlanar = false) (first : Nat) :
    (f.planes.headD []).drop (first * bytesPerInstant f) = instantsFrom f first := by
  have hstride : stride f = bytesPerInstant f := by simp [stride, hpacked]
  have hsound : soundPlanes f = f.planes.take 1 := by simp [soundPlanes, hpacked]
  cases hplanes : f.planes with
  | nil =>
      have hnone : instants f = 0 := by simp [instants, hplanes]
      rw [instantsFrom_of_le (by omega), List.headD_nil, List.drop_nil]
  | cons plane rest =>
      have hone : soundPlanes f = [plane] := by simp [hsound, hplanes]
      have hrest : (plane.drop (first * bytesPerInstant f)).length =
          (instants f - first) * bytesPerInstant f := by
        rw [List.length_drop, hf.2 plane (by simp [hone]), hstride, Nat.sub_mul]
      rw [instantsFrom_eq, hone, hstride, List.map_singleton,
        interleaveSamples_singleton _ _ _ hrest, List.headD_cons]

/-- The bytes of a frame of whole samples without those of its first instants are the other
instants. -/
theorem IsWhole.frameBytes_eq (hf : IsWhole f) (hchannels : 1 ≤ f.stream.channelCount)
    (hsize : 0 < f.format.sampleSize) (first : Nat) :
    frameBytes f (first * bytesPerInstant f) = instantsFrom f first := by
  unfold frameBytes
  split_ifs with hplanar
  · exact hf.frameBytes_planar hchannels hsize hplanar first
  · rw [← hf.drop_packed (Bool.eq_false_iff.mpr hplanar) first]
    cases f.planes <;> simp

/-! ## Lengths -/

theorem IsWhole.length_instant (hf : IsWhole f) {j : Nat} (hj : j < instants f) :
    (instant f j).length = bytesPerInstant f := by
  have hcount : (instant f j).length = (soundPlanes f).length * stride f := by
    refine Audio.length_instant f fun plane hplane => ?_
    rw [hf.2 plane hplane]
    exact Nat.mul_le_mul_right _ hj
  rw [hcount]
  unfold soundPlanes stride
  split_ifs with hplanar
  · rw [List.length_take, Nat.min_eq_left (hf.1 hplanar), bytesPerInstant, Nat.mul_comm]
  · have hne : f.planes ≠ [] := by
      rintro hnone
      simp [instants, hnone] at hj
    obtain ⟨plane, rest, hplanes⟩ := List.exists_cons_of_ne_nil hne
    simp [hplanes]

theorem IsWhole.length_range (hf : IsWhole f) {k n : Nat} (hn : k + n ≤ instants f) :
    ((List.range' k n).flatMap (instant f)).length = n * bytesPerInstant f := by
  induction n generalizing k with
  | zero => simp
  | succ n ih =>
      rw [List.range'_succ, List.flatMap_cons, List.length_append,
        hf.length_instant (by omega), ih (by omega), Nat.succ_mul, Nat.add_comm]

theorem IsWhole.length_instantsFrom (hf : IsWhole f) (first : Nat) :
    (instantsFrom f first).length = (instants f - first) * bytesPerInstant f := by
  rcases Nat.le_total (instants f) first with hnone | hsome
  · rw [instantsFrom_of_le hnone, Nat.sub_eq_zero_of_le hnone, Nat.zero_mul, List.length_nil]
  · exact hf.length_range (by omega)

theorem IsWhole.instant_prefix (hf : IsWhole f) {first j : Nat} (hfirst : first ≤ j)
    (hj : j < instants f) :
    instant f j <+: (instantsFrom f first).drop ((j - first) * bytesPerInstant f) := by
  have hsplit : List.range' first (instants f - first) =
      List.range' first (j - first) ++ j :: List.range' (j + 1) (instants f - j - 1) := by
    have hcount : instants f - first = j - first + (instants f - j - 1 + 1) := by omega
    rw [hcount, ← List.range'_append_1, List.range'_succ, Nat.add_sub_cancel' hfirst]
  have hbefore : ((List.range' first (j - first)).flatMap (instant f)).length =
      (j - first) * bytesPerInstant f := hf.length_range (by omega)
  rw [instantsFrom, hsplit, List.flatMap_append, ← hbefore, List.drop_left, List.flatMap_cons]
  exact List.prefix_append _ _

end Whole

end Audio

end MediaPipeline
