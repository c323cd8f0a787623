import Mathlib.Tactic.Linarith
import MediaPipeline.Proofs.Time.Exact
import MediaPipeline.SyntheticMedia

/-!
# Segments tile the media

Media are cut into slices wherever the length of a segment falls, in front of a frame or in the
middle of one. A slice has the frames between its two borders, each border moved to the nearest
start of a frame. The next slice begins at the border where the last one stopped and moves it in the
same way, so the frames of the two join up, however short a slice is.
-/

namespace MediaPipeline

namespace ExactTime

theorem finite_div_finite (a b : ℚ) : finite a / finite b = finite (a / b) :=
  congrArg finite (div_eq_mul_inv a b).symm

theorem roundNat_mono {a b : ℚ} (hab : a ≤ b) :
    MediaTime.roundNat (finite a) ≤ MediaTime.roundNat (finite b) :=
  Int.toNat_le_toNat (Rat.floor_monotone (by linarith))

theorem roundNat_zero : MediaTime.roundNat (finite 0) = 0 := by
  decide +kernel

end ExactTime

namespace SyntheticMedia

open ExactTime MediaTime

/-! ## The end of the cutting -/

/-- From `start` on the media are cut into these slices, and nothing is left of them. -/
inductive Cuts {T : Type} [MediaTime T] (duration length : T) : T → List (T × T) → Prop
  | done {start : T} (hover : ¬ start < duration) : Cuts duration length start []
  | slice {start : T} {rest : List (T × T)} (hleft : start < duration)
      (hrest : Cuts duration length (earlier (start + length) duration) rest) :
      Cuts duration length start ((start, earlier (start + length) duration) :: rest)

variable {d s l : ℚ} {length : ExactTime}

theorem exists_stop (hlength : 0 ≤ length) (hleft : s ≤ d) :
    ∃ t, earlier (finite s + length) (finite d) = finite t ∧ s ≤ t ∧ t ≤ d := by
  have hstart : finite s ≤ finite s + length := le_add_of_nonneg hlength _
  rcases ExactTime.total (finite s + length) (finite d) with hstop | hstop
  · rw [earlier_of_le hstop]
    cases length with
    | negInf => exact absurd hlength (by decide)
    | finite q =>
        rw [finite_add_finite, finite_le_finite] at hstart hstop
        exact ⟨s + q, rfl, hstart, hstop⟩
    | posInf => exact absurd hstop (not_posInf_le_finite d)
  · rw [earlier_of_ge hstop]
    exact ⟨d, rfl, hleft, le_rfl⟩

/-- So many slices of a length are enough for what is left of the media. -/
theorem cuts_slicesFrom {q : ℚ} (hq : 0 ≤ q) {count : ℕ} (hcount : d - s ≤ count * q) :
    Cuts (finite d) (finite q) (finite s) (slicesFrom (finite d) (finite q) count (finite s)) := by
  induction count generalizing s with
  | zero =>
      refine .done ?_
      rw [finite_lt_finite, not_lt]
      simpa using hcount
  | succ count ih =>
      rw [slicesFrom]
      split_ifs with hleft
      · refine .slice hleft ?_
        rw [Nat.cast_succ, add_one_mul] at hcount
        rcases le_total (s + q) d with hstop | hstop
        · rw [finite_add_finite, earlier_of_le (finite_le_finite.mpr hstop)]
          apply ih
          linarith
        · rw [finite_add_finite, earlier_of_ge (finite_le_finite.mpr hstop)]
          apply ih
          rw [sub_self]
          exact mul_nonneg (Nat.cast_nonneg count) hq
      · exact .done hleft

theorem cuts_slicesFrom_posInf (count : ℕ) :
    Cuts (finite d) ExactTime.posInf (finite s)
      (slicesFrom (finite d) ExactTime.posInf (count + 2) (finite s)) := by
  rw [slicesFrom]
  split_ifs with hleft
  · refine .slice hleft ?_
    rw [finite_add_posInf, earlier_of_ge (le_posInf _), slicesFrom]
    have hover : ¬ finite d < finite d := by simp [finite_lt_finite]
    rw [if_neg hover]
    exact .done hover
  · exact .done hleft

theorem le_two_mul_floorNat_add_two {q : ℚ} (hq : 0 ≤ q) :
    q ≤ (2 * floorNat (finite q) + 2 : ℕ) := by
  have hfloor : (floorNat (finite q) : ℤ) = ⌊q⌋ :=
    Int.toNat_of_nonneg (Int.floor_nonneg.mpr hq)
  have hlt := Int.lt_floor_add_one q
  rw [← hfloor, Int.cast_natCast] at hlt
  have hpos : (0 : ℚ) ≤ floorNat (finite q) := Nat.cast_nonneg _
  push_cast
  linarith

/-- The media are cut up to their end, whatever length of a segment is asked for. -/
theorem cuts_slices (hd : 0 < d) (segmentLength : ExactTime) :
    Cuts (finite d) (later segmentLength audioFrameLength) 0
      (slices (finite d) segmentLength) := by
  have hpos : (0 : ExactTime) < later segmentLength audioFrameLength :=
    lt_later_right (by decide +kernel)
  unfold slices
  generalize later segmentLength audioFrameLength = length at hpos
  cases length with
  | negInf => exact absurd hpos (by decide)
  | finite q =>
      have hq : 0 < q := finite_lt_finite.mp hpos
      apply cuts_slicesFrom hq.le
      rw [sub_zero, finite_div_finite, ← div_le_iff₀ hq]
      exact le_two_mul_floorNat_add_two (div_nonneg hd.le hq.le)
  | posInf => exact cuts_slicesFrom_posInf _

/-! ## The frames of the slices -/

theorem frameNumbers_append {t : ℚ} (hl : 0 < l) (hst : s ≤ t) (htd : t ≤ d) :
    frameNumbers (finite s) (finite t) (finite l) ++ frameNumbers (finite t) (finite d) (finite l) =
      frameNumbers (finite s) (finite d) (finite l) := by
  simp only [frameNumbers, finite_div_finite]
  have hfirst := roundNat_mono (div_le_div_of_nonneg_right hst hl.le)
  have hlast := roundNat_mono (div_le_div_of_nonneg_right htd hl.le)
  rw [← Nat.add_sub_cancel' hfirst, Nat.add_sub_cancel_left, List.range'_append_1]
  congr 1
  omega

/-- The slices have the frames that the media have which they are cut from. -/
theorem Cuts.flatMap_frameNumbers {ss : List (ExactTime × ExactTime)} (hl : 0 < l)
    (hlength : 0 ≤ length) (hcuts : Cuts (finite d) length (finite s) ss) (hs : s ≤ d) :
    ss.flatMap (fun (start, stop) => frameNumbers start stop (finite l)) =
      frameNumbers (finite s) (finite d) (finite l) := by
  generalize hstart : finite s = start at hcuts
  induction hcuts generalizing s with
  | done hover =>
      subst hstart
      rw [finite_lt_finite, not_lt] at hover
      simp [frameNumbers, le_antisymm hs hover]
  | slice hleft hrest ih =>
      subst hstart
      obtain ⟨t, ht, hst, htd⟩ := exists_stop hlength hs
      rw [List.flatMap_cons, ih htd ht.symm, ht]
      exact frameNumbers_append hl hst htd

/-- Media of any length, cut into segments of any length, come to an end, and the frames of the
segments are those of the media, each of them once and in their order. -/
theorem frames_tile (hd : 0 < d) (hl : 0 < l) (segmentLength : ExactTime) :
    Cuts (finite d) (later segmentLength audioFrameLength) 0 (slices (finite d) segmentLength) ∧
      (slices (finite d) segmentLength).flatMap
          (fun (start, stop) => frameNumbers start stop (finite l)) =
        List.range (roundNat (finite d / finite l)) := by
  have hcuts := cuts_slices hd segmentLength
  have hlength : (0 : ExactTime) ≤ later segmentLength audioFrameLength :=
    MediaTime.le_of_lt (lt_later_right (by decide +kernel))
  refine ⟨hcuts, ?_⟩
  rw [hcuts.flatMap_frameNumbers hl hlength hd.le, frameNumbers, finite_div_finite, zero_div,
    roundNat_zero, Nat.sub_zero, List.range_eq_range']

/-- Three frames in four segments: the first border falls into the first frame, the second one
halfway into the second frame, and the third segment has no frame. -/
theorem frames_tile_quarters :
    ((0 : ℚ) < 1 ∧ (0 : ℚ) < 1 / 3) ∧
      ((slices (finite 1) (finite (1 / 4))).map fun (start, stop) =>
        frameNumbers start stop (finite (1 / 3))) = [[0], [1], [], [2]] ∧
      Cuts (finite 1) (later (finite (1 / 4)) audioFrameLength) 0
        (slices (finite 1) (finite (1 / 4))) ∧
      (slices (finite 1) (finite (1 / 4))).flatMap
          (fun (start, stop) => frameNumbers start stop (finite (1 / 3))) =
        List.range (roundNat (finite 1 / finite (1 / 3))) := by
  have hd : (0 : ℚ) < 1 := one_pos
  have hl : (0 : ℚ) < 1 / 3 := by norm_num
  exact ⟨⟨hd, hl⟩, by decide +kernel, frames_tile hd hl (finite (1 / 4))⟩

end SyntheticMedia

end MediaPipeline
