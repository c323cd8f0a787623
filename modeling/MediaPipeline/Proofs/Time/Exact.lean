import Mathlib.Algebra.Order.Field.Rat
import Mathlib.Data.Rat.Floor
import Mathlib.Tactic.Linarith
import Mathlib.Tactic.Ring
import MediaPipeline.Proofs.Time.Laws

/-!
# Exact times

Rational numbers of seconds, with a time below and one above all others. Sums and products are not
rounded, so the laws of an ordered field hold wherever the times are finite. An infinite time
outweighs any finite one, the lower infinity outweighs the upper one in a sum, and zero times an
infinity is zero.
-/

namespace MediaPipeline

inductive ExactTime where
  | negInf
  | finite (q : ℚ)
  | posInf
  deriving DecidableEq, Repr

namespace ExactTime

/-! ## Arithmetic -/

def le : ExactTime → ExactTime → Bool
  | negInf, _ => true
  | _, posInf => true
  | finite a, finite b => decide (a ≤ b)
  | _, _ => false

def neg : ExactTime → ExactTime
  | negInf => posInf
  | finite a => finite (-a)
  | posInf => negInf

def add : ExactTime → ExactTime → ExactTime
  | finite a, finite b => finite (a + b)
  | negInf, _ => negInf
  | _, negInf => negInf
  | _, _ => posInf

def sign : ExactTime → ℤ
  | negInf => -1
  | finite a => if a < 0 then -1 else if 0 < a then 1 else 0
  | posInf => 1

/-- The infinite time with a sign, zero if there is none. -/
def ofSign (n : ℤ) : ExactTime :=
  if n < 0 then negInf else if 0 < n then posInf else finite 0

def mul : ExactTime → ExactTime → ExactTime
  | finite a, finite b => finite (a * b)
  | a, b => ofSign (a.sign * b.sign)

def inv : ExactTime → ExactTime
  | finite a => finite a⁻¹
  | _ => finite 0

instance : MediaTime ExactTime where
  zero := finite 0
  one := finite 1
  neg := neg
  add := add
  sub a b := add a (neg b)
  mul := mul
  div a b := mul a (inv b)
  le a b := le a b = true
  lt a b := le b a = false
  beq a b := decide (a = b)
  ofScientific m s e := finite (OfScientific.ofScientific m s e)
  decidableLE a b := inferInstanceAs (Decidable (le a b = true))
  decidableLT a b := inferInstanceAs (Decidable (le b a = false))
  negInf := negInf
  posInf := posInf
  ofNat n := finite n
  ofNanos n := finite (n / 1000000000)
  toNanos?
    | finite a =>
      if 0 ≤ a ∧ a < (UInt64.size : ℚ) then
        some (roundHalfEven (a.num.toNat * 1000000000) a.den)
      else none
    | _ => none
  truncate
    | finite a => a.num.tdiv a.den
    | _ => 0
  floorNat
    | finite a => a.floor.toNat
    | _ => 0
  roundNat
    | finite a => (a + 1 / 2).floor.toNat
    | _ => 0

theorem zero_eq : (0 : ExactTime) = finite 0 := rfl

@[simp] theorem finite_add_finite (a b : ℚ) : finite a + finite b = finite (a + b) := rfl

@[simp] theorem finite_mul_finite (a b : ℚ) : finite a * finite b = finite (a * b) := rfl

@[simp] theorem negInf_add (a : ExactTime) : negInf + a = negInf := by
  cases a <;> rfl

@[simp] theorem add_negInf (a : ExactTime) : a + negInf = negInf := by
  cases a <;> rfl

@[simp] theorem finite_add_posInf (a : ℚ) : finite a + posInf = posInf := rfl

@[simp] theorem posInf_add {b : ExactTime} (hb : b ≠ negInf) : posInf + b = posInf := by
  cases b with
  | negInf => exact absurd rfl hb
  | finite _ => rfl
  | posInf => rfl

/-! ## Order -/

@[simp] theorem negInf_le (a : ExactTime) : negInf ≤ a := by
  cases a <;> rfl

@[simp] theorem le_posInf (a : ExactTime) : a ≤ posInf := by
  cases a <;> rfl

@[simp] theorem finite_le_finite {a b : ℚ} : finite a ≤ finite b ↔ a ≤ b :=
  decide_eq_true_iff

@[simp] theorem not_finite_le_negInf (a : ℚ) : ¬ finite a ≤ negInf := Bool.false_ne_true

@[simp] theorem not_posInf_le_finite (b : ℚ) : ¬ posInf ≤ finite b := Bool.false_ne_true

@[simp] theorem not_posInf_le_negInf : ¬ posInf ≤ negInf := Bool.false_ne_true

theorem lt_iff_not_le {a b : ExactTime} : a < b ↔ ¬ b ≤ a :=
  (Bool.not_eq_true _).symm ▸ Iff.rfl

theorem finite_lt_finite {a b : ℚ} : finite a < finite b ↔ a < b := by
  rw [lt_iff_not_le, finite_le_finite, not_le]

protected theorem refl (a : ExactTime) : a ≤ a := by
  cases a <;> simp

protected theorem antisymm {a b : ExactTime} (hab : a ≤ b) (hba : b ≤ a) : a = b := by
  cases a <;> cases b <;> simp_all [le_antisymm_iff]

protected theorem total (a b : ExactTime) : a ≤ b ∨ b ≤ a := by
  cases a <;> cases b <;> simp [le_total]

theorem beq_iff_eq {a b : ExactTime} : (a == b) = true ↔ a = b := decide_eq_true_iff

protected theorem add_le_add_right {a b : ExactTime} (hab : a ≤ b) (c : ExactTime) :
    a + c ≤ b + c := by
  cases a <;> cases b <;> cases c <;> simp_all

theorem le_add_of_nonneg {d : ExactTime} (hd : 0 ≤ d) (a : ExactTime) : a ≤ a + d := by
  rw [zero_eq] at hd
  cases a <;> cases d <;> simp_all

/-! ## Sums -/

@[simp] protected theorem add_zero (a : ExactTime) : a + 0 = a := by
  rw [zero_eq]
  cases a <;> simp

protected theorem add_comm (a b : ExactTime) : a + b = b + a := by
  cases a <;> cases b <;> simp [add_comm]

@[simp] protected theorem zero_add (a : ExactTime) : 0 + a = a := by
  rw [ExactTime.add_comm, ExactTime.add_zero]

theorem sub_eq (a b : ExactTime) : a - b = a + b.neg := rfl

protected theorem sub_zero (a : ExactTime) : a - 0 = a := by
  rw [sub_eq, zero_eq]
  cases a <;> simp [neg]

protected theorem add_assoc (a b c : ExactTime) : a + b + c = a + (b + c) := by
  cases a <;> cases b <;> cases c <;> simp [add_assoc]

protected theorem add_nonneg {a b : ExactTime} (ha : 0 ≤ a) (hb : 0 ≤ b) : 0 ≤ a + b := by
  rw [zero_eq] at *
  cases a <;> cases b <;> simp_all [add_nonneg]

/-! ## Lengths of wall time -/

theorem ofNanos_eq (n : ℕ) : (MediaTime.ofNanos n : ExactTime) = finite (n / 1000000000) := rfl

theorem finite_mul_posInf (q : ℚ) : finite q * posInf = ofSign (finite q).sign :=
  congrArg ofSign (mul_one _)

theorem finite_mul_negInf (q : ℚ) : finite q * negInf = ofSign (-(finite q).sign) :=
  congrArg ofSign (mul_neg_one _)

theorem sign_ofNanos (n : ℕ) :
    sign (finite ((n : ℚ) / 1000000000)) = if n = 0 then 0 else 1 := by
  rcases Nat.eq_zero_or_pos n with rfl | hn
  · simp [sign]
  · have hpos : (0 : ℚ) < n / 1000000000 := div_pos (Nat.cast_pos.mpr hn) (by norm_num)
    simp [sign, hpos, hpos.le.not_gt, hn.ne']

/-- A zero length is zero at every rate, and lengths add up at every rate. -/
theorem ofNanos_add_mul (m n : ℕ) (r : ExactTime) :
    MediaTime.ofNanos (m + n) * r = MediaTime.ofNanos m * r + MediaTime.ofNanos n * r := by
  simp only [ofNanos_eq]
  cases r with
  | finite q => simp [add_div, add_mul]
  | negInf =>
      simp only [finite_mul_negInf, sign_ofNanos]
      rcases m with _ | m <;> rcases n with _ | n <;> simp [ofSign]
  | posInf =>
      simp only [finite_mul_posInf, sign_ofNanos]
      rcases m with _ | m <;> rcases n with _ | n <;> simp [ofSign]

theorem ofNanos_zero_mul (r : ExactTime) : MediaTime.ofNanos 0 * r = 0 := by
  cases r <;> simp [ofNanos_eq, finite_mul_negInf, finite_mul_posInf, sign, ofSign, zero_eq]

theorem ofNanos_mul_nonneg (n : ℕ) {r : ExactTime} (hr : 0 ≤ r) :
    0 ≤ MediaTime.ofNanos n * r := by
  rw [zero_eq] at *
  cases r with
  | negInf => simp at hr
  | finite q =>
      rw [finite_le_finite] at hr
      rw [ofNanos_eq, finite_mul_finite, finite_le_finite]
      exact mul_nonneg (div_nonneg (Nat.cast_nonneg n) (by norm_num)) hr
  | posInf =>
      rw [ofNanos_eq, finite_mul_posInf, sign_ofNanos]
      split_ifs <;> simp [ofSign]

end ExactTime

open ExactTime in
instance : LawfulMediaTime ExactTime where
  le_trans {a b c} hab hbc := by
    cases a <;> cases b <;> cases c <;> simp_all
    exact hab.trans hbc
  isNumber_of_le _ := ⟨ExactTime.refl _, ExactTime.refl _⟩
  le_total _ _ := ExactTime.total _ _
  lt_iff {a b} := by
    rw [lt_iff_not_le]
    exact ⟨fun hnot => ⟨(ExactTime.total a b).resolve_right hnot, hnot⟩, And.right⟩
  beq_iff {a b} := by
    rw [ExactTime.beq_iff_eq]
    constructor
    · rintro rfl
      exact ⟨ExactTime.refl a, ExactTime.refl a⟩
    · rintro ⟨hab, hba⟩
      exact ExactTime.antisymm hab hba
  negInf_le _ := ExactTime.negInf_le _
  le_posInf _ := ExactTime.le_posInf _
  le_add _ _ hd := le_add_of_nonneg hd _
  isFinite_maxGap := by decide
  maxGap_nonneg := by decide +kernel

namespace ExactTime

theorem exists_eq_finite {a : ExactTime} (ha : MediaTime.isFinite a = true) :
    ∃ q, a = finite q := by
  cases a with
  | negInf => exact absurd ha (by decide)
  | finite q => exact ⟨q, rfl⟩
  | posInf => exact absurd ha (by decide)

/-! ## Differences -/

theorem sub_self_of_isFinite {a : ExactTime} (ha : MediaTime.isFinite a = true) : a - a = 0 := by
  obtain ⟨q, rfl⟩ := exists_eq_finite ha
  exact congrArg finite (add_neg_cancel q)

theorem sub_nonpos_iff {a b : ExactTime}
    (h : MediaTime.isFinite a = true ∨ MediaTime.isFinite b = true) : a - b ≤ 0 ↔ a ≤ b := by
  rw [sub_eq, zero_eq]
  rcases h with h | h
  · obtain ⟨q, rfl⟩ := exists_eq_finite h
    cases b <;> simp [neg]
  · obtain ⟨q, rfl⟩ := exists_eq_finite h
    cases a <;> simp [neg]

theorem sub_sub_of_isFinite {b : ExactTime} (hb : MediaTime.isFinite b = true) (a c : ExactTime) :
    a - b - c = a - (b + c) := by
  obtain ⟨q, rfl⟩ := exists_eq_finite hb
  simp only [sub_eq]
  cases a <;> cases c <;> simp [neg]
  ring

/-! ## Distances and whole parts -/

theorem abs_finite (q : ℚ) : MediaTime.abs (finite q) = finite |q| := by
  have hneg : finite q < 0 ↔ q < 0 := finite_lt_finite
  unfold MediaTime.abs
  split_ifs with h
  · exact congrArg finite (abs_of_neg (hneg.mp h)).symm
  · exact congrArg finite (abs_of_nonneg (not_lt.mp (mt hneg.mpr h))).symm

theorem truncate_of_nonneg {q : ℚ} (hq : 0 ≤ q) : MediaTime.truncate (finite q) = ⌊q⌋ := by
  rw [Rat.floor_def']
  exact Int.tdiv_eq_ediv_of_nonneg (Rat.num_nonneg.mpr hq)

theorem truncate_neg (q : ℚ) :
    MediaTime.truncate (finite (-q)) = -MediaTime.truncate (finite q) :=
  Int.neg_tdiv ..

theorem abs_sub_truncate_lt (q : ℚ) : |q - MediaTime.truncate (finite q)| < 1 := by
  wlog hq : 0 ≤ q generalizing q
  · have hneg := this (-q) (by linarith)
    rwa [truncate_neg, Int.cast_neg, sub_neg_eq_add, ← abs_neg, neg_add, neg_neg,
      ← sub_eq_add_neg] at hneg
  · rw [truncate_of_nonneg hq, Int.self_sub_floor, abs_of_nonneg (Int.fract_nonneg q)]
    exact Int.fract_lt_one q

theorem truncate_le_of_pos {q : ℚ} (hq : 0 < MediaTime.truncate (finite q)) :
    (MediaTime.truncate (finite q) : ℚ) ≤ q := by
  rcases le_total 0 q with hnonneg | hneg
  · rw [truncate_of_nonneg hnonneg]
    exact Int.floor_le q
  · have hpart := truncate_neg (-q)
    have hfloor := Int.floor_nonneg.mpr (neg_nonneg.mpr hneg)
    rw [neg_neg, truncate_of_nonneg (neg_nonneg.mpr hneg)] at hpart
    omega

/-! ## The lesser and the greater of two times -/

theorem lt_later_left {a b c : ExactTime} (h : a < b) : a < MediaTime.later b c :=
  MediaTime.lt_of_lt_of_le h (MediaTime.le_later (ExactTime.refl b) (ExactTime.refl c)).1

theorem lt_later_right {a b c : ExactTime} (h : a < c) : a < MediaTime.later b c :=
  MediaTime.lt_of_lt_of_le h (MediaTime.le_later (ExactTime.refl b) (ExactTime.refl c)).2

theorem earlier_of_le {a b : ExactTime} (hab : a ≤ b) : MediaTime.earlier a b = a := if_pos hab

theorem earlier_of_ge {a b : ExactTime} (hba : b ≤ a) : MediaTime.earlier a b = b := by
  unfold MediaTime.earlier
  split_ifs with hab hnan
  · exact ExactTime.antisymm hab hba
  · simp [MediaTime.isNaN] at hnan
  · rfl

/-- A bound that is met on the way is met at the end. -/
theorem earlier_earlier_add {z : ExactTime} (hz : 0 ≤ z) (x d : ExactTime) :
    MediaTime.earlier (MediaTime.earlier x d + z) d = MediaTime.earlier (x + z) d := by
  rcases ExactTime.total x d with hx | hd
  · rw [earlier_of_le hx]
  · have hxz : d ≤ x + z := LawfulMediaTime.le_trans hd (le_add_of_nonneg hz x)
    rw [earlier_of_ge hd, earlier_of_ge (le_add_of_nonneg hz d), earlier_of_ge hxz]

end ExactTime

end MediaPipeline
