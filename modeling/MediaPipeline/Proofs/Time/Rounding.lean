import Mathlib
import MediaPipeline.Number.Binary64

/-!
# Rounding to doubles

Every finite double is a whole number of units, the unit being the least positive double, so sums
of doubles are exact in units. Rounding such a sum never passes a double: what is not above the
sum is not above the rounded sum, and what is not below the one is not below the other.
-/

namespace MediaPipeline.Double

open Float.Model Float.Model.UnpackedFloat

/-! ## Units -/

/-- The least positive double counts as one. -/
def units (m : Nat) (e : Int) : Nat := m * 2 ^ (e + 1074).toNat

/-- Mantissa and exponent of a finite double, but for the greatest exponent: the mantissa has as
many bits as fit unless the exponent is the least one. -/
structure Canonical (m : Nat) (e : Int) : Prop where
  lt : m < 2 ^ 53
  le : -1074 ≤ e
  normal : 2 ^ 52 ≤ m ∨ e = -1074

/-- A smaller exponent makes up for any mantissa. -/
theorem scaled_lt_of_lt {m n a b : Nat} (hm : m < 2 ^ 53) (hn : 2 ^ 52 ≤ n) (hab : a < b) :
    m * 2 ^ a < n * 2 ^ b := by
  have hpow : 2 ^ 53 * 2 ^ a ≤ 2 ^ 52 * 2 ^ b := by
    calc
      2 ^ 53 * 2 ^ a = 2 ^ 52 * 2 ^ (a + 1) := by ring
      _ ≤ 2 ^ 52 * 2 ^ b := Nat.mul_le_mul_left _ (Nat.pow_le_pow_right (by decide) hab)
  calc
    m * 2 ^ a < 2 ^ 53 * 2 ^ a := Nat.mul_lt_mul_of_pos_right hm (Nat.two_pow_pos a)
    _ ≤ 2 ^ 52 * 2 ^ b := hpow
    _ ≤ n * 2 ^ b := Nat.mul_le_mul_right _ hn

theorem Canonical.units_lt {m n : Nat} {e f : Int} (hm : Canonical m e) (hn : Canonical n f)
    (hef : e < f) : units m e < units n f := by
  have he := hm.le
  have hnormal : 2 ^ 52 ≤ n := by
    rcases hn.normal with h | h
    · exact h
    · omega
  exact scaled_lt_of_lt hm.lt hnormal (by omega)

theorem Canonical.compare_units {m n : Nat} {e f : Int} (hm : Canonical m e)
    (hn : Canonical n f) :
    (compare e f).then (compare m n) = compare (units m e) (units n f) := by
  rcases lt_trichotomy e f with hlt | rfl | hgt
  · rw [compare_lt_iff_lt.mpr hlt, compare_lt_iff_lt.mpr (hm.units_lt hn hlt)]
    rfl
  · have hpos : 0 < 2 ^ (e + 1074).toNat := Nat.two_pow_pos _
    rw [compare_eq_iff_eq.mpr rfl]
    rcases lt_trichotomy m n with h | rfl | h
    · have hunits : units m e < units n e := Nat.mul_lt_mul_of_pos_right h hpos
      simp [compare_lt_iff_lt.mpr h, compare_lt_iff_lt.mpr hunits]
    · simp
    · have hunits : units n e < units m e := Nat.mul_lt_mul_of_pos_right h hpos
      simp [compare_gt_iff_gt.mpr h, compare_gt_iff_gt.mpr hunits]
  · rw [compare_gt_iff_gt.mpr hgt, compare_gt_iff_gt.mpr (hn.units_lt hm hgt)]
    rfl

/-! ## Shifting mantissas -/

theorem shiftRight_of_dvd {m k : Nat} (h : 2 ^ k ∣ m) :
    ExtendedMantissa.mk m false false >>> k = ⟨m / 2 ^ k, false, false⟩ := by
  induction k with
  | zero => simp [HShiftRight.hShiftRight, Nat.repeat]
  | succ k ih =>
      have hk : 2 ^ k ∣ m := Dvd.dvd.trans ⟨2, Nat.pow_succ ..⟩ h
      change (ExtendedMantissa.mk m false false >>> k).shiftRightOne = _
      obtain ⟨c, rfl⟩ := h
      have hdiv : 2 ^ (k + 1) * c / 2 ^ k = 2 * c := by
        rw [Nat.pow_succ, Nat.mul_assoc, Nat.mul_div_cancel_left _ (Nat.two_pow_pos k)]
      rw [ih hk, hdiv, Nat.mul_div_cancel_left _ (Nat.two_pow_pos (k + 1))]
      simp [ExtendedMantissa.shiftRightOne]

/-! ## Quotients to the nearest whole number -/

theorem roundHalfEven_bounds (n d : Nat) :
    n / d ≤ roundHalfEven n d ∧ roundHalfEven n d ≤ n / d + 1 := by
  simp only [roundHalfEven]
  split_ifs <;> constructor <;> omega

theorem roundHalfEven_mul_lt (n : Nat) {d : Nat} (hd : 0 < d) :
    roundHalfEven n d * d < n + d := by
  have hsplit : n / d * d + n % d = n := Nat.div_add_mod' n d
  have hnext : (n / d + 1) * d = n / d * d + d := Nat.succ_mul ..
  have hup : roundHalfEven n d * d ≤ (n / d + 1) * d :=
    Nat.mul_le_mul_right d (roundHalfEven_bounds n d).2
  by_cases hrest : n % d = 0
  · have hexact : roundHalfEven n d = n / d := by simp [roundHalfEven, hrest, hd.ne]
    rw [hexact]
    omega
  · omega

theorem roundHalfEven_mono {m n : Nat} (d : Nat) (hmn : m ≤ n) :
    roundHalfEven m d ≤ roundHalfEven n d := by
  have hm := Nat.div_add_mod m d
  have hn := Nat.div_add_mod n d
  rcases (Nat.div_le_div_right hmn : m / d ≤ n / d).lt_or_eq with hlt | heq
  · have hup := (roundHalfEven_bounds m d).2
    have hdown := (roundHalfEven_bounds n d).1
    omega
  · rw [heq] at hm
    have hrest : m % d ≤ n % d := by omega
    simp only [roundHalfEven, heq]
    split_ifs <;> omega

theorem roundHalfEven_mul_mul (n d : Nat) {c : Nat} (hc : 0 < c) :
    roundHalfEven (n * c) (d * c) = roundHalfEven n d := by
  have htwice : 2 * (n % d * c) = 2 * (n % d) * c := (Nat.mul_assoc ..).symm
  simp only [roundHalfEven, Nat.mul_div_mul_right n d hc, Nat.mul_mod_mul_right, htwice,
    Nat.mul_lt_mul_right hc, Nat.mul_left_inj hc.ne']

/-- The last bit that is shifted out is kept, and whether any bit before it was set. -/
theorem shiftRight_succ (m k : Nat) :
    ExtendedMantissa.mk m false false >>> (k + 1) =
      ⟨m / 2 ^ (k + 1), m / 2 ^ k % 2 != 0, m % 2 ^ k != 0⟩ := by
  induction k with
  | zero => simp [HShiftRight.hShiftRight, Nat.repeat, ExtendedMantissa.shiftRightOne, Nat.mod_one]
  | succ k ih =>
      change (ExtendedMantissa.mk m false false >>> (k + 1)).shiftRightOne = _
      have hbits : m % 2 ^ (k + 1) = m % 2 ^ k + 2 ^ k * (m / 2 ^ k % 2) := by
        rw [Nat.pow_succ, Nat.mod_mul]
      have hsticky : ((m / 2 ^ k % 2 != 0) || (m % 2 ^ k != 0)) = (m % 2 ^ (k + 1) != 0) := by
        rw [hbits]
        rcases Nat.mod_two_eq_zero_or_one (m / 2 ^ k) with h | h <;> simp [h]
      rw [ih]
      simp only [ExtendedMantissa.shiftRightOne, hsticky, Nat.div_div_eq_div_mul, ← Nat.pow_succ]

theorem roundedMantissa_shiftRight (m k : Nat) :
    (ExtendedMantissa.mk m false false >>> k).roundedMantissa = roundHalfEven m (2 ^ k) := by
  cases k with
  | zero => simp [HShiftRight.hShiftRight, Nat.repeat, roundHalfEven, Nat.mod_one,
      ExtendedMantissa.roundedMantissa, ExtendedMantissa.accuracy, Accuracy.roundToNearestEven]
  | succ k =>
      have hrest : m % 2 ^ k < 2 ^ k := Nat.mod_lt _ (Nat.two_pow_pos k)
      have hbits : m % 2 ^ (k + 1) = m % 2 ^ k + 2 ^ k * (m / 2 ^ k % 2) := by
        rw [Nat.pow_succ, Nat.mod_mul]
      have hpow : 2 ^ (k + 1) = 2 * 2 ^ k := by ring
      rw [shiftRight_succ]
      unfold roundHalfEven
      rw [hbits]
      rcases Nat.mod_two_eq_zero_or_one (m / 2 ^ k) with hbit | hbit
      · have hless : ∀ (q : Nat) (sticky : Bool),
            (ExtendedMantissa.mk q false sticky).roundedMantissa = q := by
          rintro q (_ | _) <;> rfl
        rw [hbit, if_neg (by omega), if_neg (by omega)]
        exact hless _ _
      · by_cases hzero : m % 2 ^ k = 0
        · rw [hbit, hzero, if_neg (by omega), if_pos (by omega)]
          rfl
        · have hsticky : (m % 2 ^ k != 0) = true := bne_iff_ne.mpr hzero
          rw [hbit, hsticky, if_pos (by omega)]
          rfl

/-! ## Rounding a number of units -/

/-- No double lies between `v` and `r`, and if `v` is a double, `r` is the same one. -/
def RoundsTo (v r : Nat) : Prop :=
  ∀ m e, Canonical m e → (units m e ≤ v → units m e ≤ r) ∧ (v ≤ units m e → r ≤ units m e)

/-- The double nearest to a number of units: as many places are dropped as do not fit. -/
def roundUnits (v : Nat) : Nat := roundHalfEven v (2 ^ (v.log2 - 52)) * 2 ^ (v.log2 - 52)

theorem roundsTo_roundUnits (v : Nat) : RoundsTo v (roundUnits v) := by
  intro m e hm
  have hunits : units m e = m * 2 ^ (e + 1074).toNat := rfl
  obtain ⟨k, hk⟩ : ∃ k, v.log2 - 52 = k := ⟨_, rfl⟩
  have hpos : 0 < 2 ^ k := Nat.two_pow_pos k
  have hfloor := (roundHalfEven_bounds v (2 ^ k)).1
  have hceil := roundHalfEven_mul_lt v hpos
  simp only [roundUnits, hk]
  generalize roundHalfEven v (2 ^ k) = r at hfloor hceil ⊢
  rcases Nat.lt_or_ge (e + 1074).toNat k with hlow | hhigh
  · -- The double has lower places than `r`, and is less than the least number with that many.
    have hv : v ≠ 0 := by
      rintro rfl
      simp only [Nat.log2_zero] at hk
      omega
    have hquot : 2 ^ 52 ≤ v / 2 ^ k := by
      rw [Nat.le_div_iff_mul_le hpos, ← Nat.pow_add, ← Nat.le_log2 hv]
      omega
    have hless : units m e < v / 2 ^ k * 2 ^ k := scaled_lt_of_lt hm.lt hquot hlow
    have hr : v / 2 ^ k * 2 ^ k ≤ r * 2 ^ k := Nat.mul_le_mul_right _ hfloor
    have hvk : v / 2 ^ k * 2 ^ k ≤ v := Nat.div_mul_le_self v _
    constructor <;> intro h <;> omega
  · -- The double is a whole multiple of the place of `r`.
    obtain ⟨j, hj⟩ := Nat.exists_eq_add_of_le hhigh
    have hscale : units m e = m * 2 ^ j * 2 ^ k := by
      rw [hunits, hj]
      ring
    rw [hscale]
    constructor
    · intro h
      have hquot : m * 2 ^ j ≤ v / 2 ^ k := (Nat.le_div_iff_mul_le hpos).mpr h
      exact Nat.mul_le_mul_right _ (hquot.trans hfloor)
    · intro h
      have hlt : r * 2 ^ k < (m * 2 ^ j + 1) * 2 ^ k := by
        rw [Nat.succ_mul]
        omega
      exact Nat.mul_le_mul_right _ (Nat.le_of_lt_succ (Nat.lt_of_mul_lt_mul_right hlt))

theorem units_two_pow {k : Nat} (hk : 52 ≤ k) :
    Canonical (2 ^ 52) ((k : Int) - 52 - 1074) ∧
      units (2 ^ 52) ((k : Int) - 52 - 1074) = 2 ^ k := by
  refine ⟨⟨by decide, by omega, Or.inl (le_refl _)⟩, ?_⟩
  have hplace : ((k : Int) - 52 - 1074 + 1074).toNat = k - 52 := by omega
  rw [units, hplace, ← Nat.pow_add]
  congr 1
  omega

/-- Numbers with equally many places are rounded at the same place. Of others, the greater one is
kept apart by the double that leads its places. -/
theorem roundUnits_mono {v w : Nat} (hvw : v ≤ w) : roundUnits v ≤ roundUnits w := by
  by_cases hplaces : v.log2 - 52 = w.log2 - 52
  · unfold roundUnits
    rw [hplaces]
    exact Nat.mul_le_mul_right _ (roundHalfEven_mono _ hvw)
  · have hlog : v.log2 ≤ w.log2 := by
      rw [Nat.log2_eq_log_two, Nat.log2_eq_log_two]
      exact Nat.log_mono_right hvw
    have hw : w ≠ 0 := by
      rintro rfl
      simp only [Nat.log2_zero] at hplaces hlog
      omega
    obtain ⟨hdouble, hpow⟩ := units_two_pow (show 52 ≤ w.log2 by omega)
    have hvpow : v ≤ 2 ^ w.log2 := by
      calc
        v ≤ 2 ^ (v.log2 + 1) := Nat.lt_log2_self.le
        _ ≤ 2 ^ w.log2 := Nat.pow_le_pow_right (by decide) (by omega)
    calc
      roundUnits v ≤ units (2 ^ 52) _ := (roundsTo_roundUnits v _ _ hdouble).2 (hpow ▸ hvpow)
      _ ≤ roundUnits w :=
        (roundsTo_roundUnits w _ _ hdouble).1 (hpow ▸ Nat.log2_self_le hw)

theorem targetExponent_eq (m : Nat) (e : Int) :
    Format.binary64.targetExponent (totalExponent m e) = max ((m.log2 : Int) + e - 52) (-1074) := by
  have hmin : Format.binary64.minExponent = -1074 := by decide
  simp only [Format.targetExponent, totalExponent, Format.mantissaBits, hmin]
  push_cast
  congr 1
  ring

theorem shiftToTargetExponent_eq (m : Nat) (e : Int) {k : Nat}
    (hk : (Format.binary64.targetExponent (totalExponent m e) - e).toNat = k) :
    shiftToTargetExponent .binary64 m e .exact =
      (ExtendedMantissa.mk m false false >>> k, e + k) := by
  subst hk
  rfl

theorem Canonical.log2_le {m : Nat} {e : Int} (h : Canonical m e) : m.log2 ≤ 52 := by
  by_cases hm : m = 0
  · simp [hm]
  · have := (Nat.log2_lt hm).mpr h.lt
    omega

theorem Canonical.shiftToTargetExponent {m : Nat} {e : Int} (h : Canonical m e) :
    shiftToTargetExponent .binary64 m e .exact = (⟨m, false, false⟩, e) := by
  have hlog := h.log2_le
  have he := h.le
  have hk : (Format.binary64.targetExponent (totalExponent m e) - e).toNat = 0 := by
    rw [targetExponent_eq]
    omega
  rw [shiftToTargetExponent_eq m e hk]
  simp [HShiftRight.hShiftRight, Nat.repeat]

theorem shiftToTargetExponent_overflow {e : Int} (he : -1074 ≤ e) :
    shiftToTargetExponent .binary64 (2 ^ 53) e .exact = (⟨2 ^ 52, false, false⟩, e + 1) := by
  have hk : (Format.binary64.targetExponent (totalExponent (2 ^ 53) e) - e).toNat = 1 := by
    rw [targetExponent_eq, Nat.log2_two_pow]
    omega
  rw [shiftToTargetExponent_eq _ e hk, shiftRight_of_dvd (by decide)]
  rfl

theorem log2_mul_two_pow {n : Nat} (hn : n ≠ 0) (k : Nat) : (n * 2 ^ k).log2 = n.log2 + k := by
  induction k with
  | zero => simp
  | succ k ih =>
      have hk : n * 2 ^ k ≠ 0 := Nat.mul_ne_zero hn (Nat.two_pow_pos k).ne'
      have hdouble : n * 2 ^ (k + 1) = 2 * (n * 2 ^ k) := by ring
      rw [hdouble, Nat.log2_two_mul hk, ih]
      rfl

theorem roundWithAccuracy_eq (s : Sign) {n : Nat} (hn : 0 < n) {e : Int} (he : -1074 ≤ e)
    (htarget : e ≤ Format.binary64.targetExponent (totalExponent n e)) :
    ∃ m f, ∃ hm : 0 < m, roundWithAccuracy .binary64 s n e .exact = .finite s m f hm ∧
      Canonical m f ∧ units m f = roundUnits (units n e) := by
  obtain ⟨k, hk⟩ : ∃ k, (Format.binary64.targetExponent (totalExponent n e) - e).toNat = k :=
    ⟨_, rfl⟩
  have hfirst := shiftToTargetExponent_eq n e hk
  rw [targetExponent_eq] at hk htarget
  have hn0 : n ≠ 0 := Nat.ne_of_gt hn
  have hround : roundUnits (units n e) = roundHalfEven n (2 ^ k) * 2 ^ ((e + 1074).toNat + k) := by
    have hplace : (units n e).log2 - 52 = (e + 1074).toNat + k := by
      rw [units, log2_mul_two_pow hn0]
      omega
    rw [roundUnits, hplace, Nat.add_comm, Nat.pow_add, units,
      roundHalfEven_mul_mul _ _ (Nat.two_pow_pos _)]
  obtain ⟨hfloor, hceil⟩ := roundHalfEven_bounds n (2 ^ k)
  generalize hr : roundHalfEven n (2 ^ k) = r at hfloor hceil hround
  have hshort : n / 2 ^ k < 2 ^ 53 := by
    rw [Nat.div_lt_iff_lt_mul (Nat.two_pow_pos k), ← Nat.pow_add, ← Nat.log2_lt hn0]
    omega
  have hplaces : (e + 1074).toNat + k = 0 ∨ 2 ^ 52 ≤ n / 2 ^ k := by
    by_cases hmin : e + (k : Int) = -1074
    · left
      omega
    · right
      rw [Nat.le_div_iff_mul_le (Nat.two_pow_pos k), ← Nat.pow_add, ← Nat.le_log2 hn0]
      omega
  have hpos : 0 < r := by
    rcases hplaces with h | h
    · have hk0 : k = 0 := by omega
      subst hk0
      simp only [Nat.pow_zero, Nat.div_one] at hfloor
      omega
    · omega
  rcases Nat.lt_or_ge r (2 ^ 53) with hlt | hge
  · have hcanonical : Canonical r (e + k) := by
      refine ⟨hlt, by omega, ?_⟩
      rcases hplaces with h | h
      · right
        omega
      · left
        omega
    refine ⟨r, e + k, hpos, ?_, hcanonical, ?_⟩
    · rw [roundWithAccuracy, hfirst]
      simp only [roundedMantissa_shiftRight, hr, hcanonical.shiftToTargetExponent]
      rw [dif_neg (Nat.ne_of_gt hpos)]
    · rw [hround, units]
      congr 2
      omega
  · have hr53 : r = 2 ^ 53 := by omega
    refine ⟨2 ^ 52, e + k + 1, by decide, ?_, ⟨by decide, by omega, Or.inl (le_refl _)⟩, ?_⟩
    · rw [roundWithAccuracy, hfirst]
      simp only [roundedMantissa_shiftRight, hr, hr53,
        shiftToTargetExponent_overflow (show -1074 ≤ e + (k : Int) by omega)]
      rfl
    · have hexp : (e + k + 1 + 1074).toNat = (e + 1074).toNat + k + 1 := by omega
      rw [hround, units, hexp, hr53]
      ring

/-- Rounding a whole number of units gives a double. -/
theorem round_eq (s : Sign) {n : Nat} (hn : 0 < n) {e : Int} (he : -1074 ≤ e) :
    ∃ m f, ∃ hm : 0 < m, UnpackedFloat.round .binary64 s n e = .finite s m f hm ∧
      Canonical m f ∧ units m f = roundUnits (units n e) := by
  obtain ⟨k, hk⟩ : ∃ k, (e - Format.binary64.targetExponent (totalExponent n e)).toNat = k :=
    ⟨_, rfl⟩
  have hround : UnpackedFloat.round .binary64 s n e =
      roundWithAccuracy .binary64 s (n * 2 ^ k) (e - k) .exact := by
    subst hk
    simp only [UnpackedFloat.round, decreaseExponent, Nat.shiftLeft_eq]
  rw [targetExponent_eq] at hk
  have hlow : -1074 ≤ e - (k : Int) := by omega
  have htarget : e - (k : Int) ≤
      Format.binary64.targetExponent (totalExponent (n * 2 ^ k) (e - k)) := by
    rw [targetExponent_eq, log2_mul_two_pow (Nat.ne_of_gt hn)]
    omega
  have hunits : units n e = units (n * 2 ^ k) (e - k) := by
    have hexp : (e + 1074).toNat = k + (e - k + 1074).toNat := by omega
    rw [units, units, hexp, Nat.pow_add, Nat.mul_assoc]
  rw [hround, hunits]
  exact roundWithAccuracy_eq s (Nat.mul_pos hn (Nat.two_pow_pos k)) hlow htarget

/-! ## Packing -/

theorem unpackSign_packComponents (s : Sign) (e : BitVec 11) (m : BitVec 52) :
    Sign.ofBitVec (unpackSign (packComponents .binary64 s e m)) = s := by
  have hhigh : (s.toBitVec ++ e ++ m).getLsbD 63 = s.toBitVec.getLsbD 0 := by
    rw [BitVec.getLsbD_append, BitVec.getLsbD_append]
    rfl
  have hsign : unpackSign (packComponents .binary64 s e m) = s.toBitVec := by
    apply BitVec.eq_of_getLsbD_eq
    intro i hi
    have hi0 : i = 0 := by omega
    rw [hi0, ← hhigh]
    simp only [unpackSign, packComponents, BitVec.extractLsb, BitVec.getLsbD_cast,
      BitVec.getLsbD_extractLsb']
    rfl
  rw [hsign]
  cases s <;> rfl

theorem toNat_append_one (m : BitVec 52) : (1#1 ++ m).toNat = 2 ^ 52 + m.toNat := by
  rw [BitVec.toNat_append, ← Nat.shiftLeft_add_eq_or_of_lt m.isLt]
  simp [Nat.shiftLeft_eq]

theorem ofNat_ne_ofNat {w n k : Nat} (hn : n < 2 ^ w) (hk : k < 2 ^ w) (h : n ≠ k) :
    BitVec.ofNat w n ≠ BitVec.ofNat w k := by
  intro heq
  have hnat := congrArg BitVec.toNat heq
  rw [BitVec.toNat_ofNat, BitVec.toNat_ofNat, Nat.mod_eq_of_lt hn, Nat.mod_eq_of_lt hk] at hnat
  exact h hnat

theorem exponentBias_eq : Format.binary64.exponentBias = 1023 := by decide

theorem unpack_packComponents_normal (s : Sign) {b m : Nat} (hb : 0 < b) (hb' : b < 2047)
    (hm : 2 ^ 52 ≤ m) (hm' : m < 2 ^ 53) :
    UnpackedFloat.unpack .binary64
        (packComponents .binary64 s (BitVec.ofNat 11 b) (BitVec.ofNat 52 m)) =
      .finite s m (b - 1075) (by omega) := by
  have hzero : BitVec.ofNat 11 b ≠ 0#11 := ofNat_ne_ofNat (by omega) (by decide) (by omega)
  have hones : BitVec.ofNat 11 b ≠ -1#11 :=
    @ofNat_ne_ofNat 11 b 2047 (by omega) (by decide) (by omega)
  have hmantissa : (1#1 ++ BitVec.ofNat 52 m).toNat = m := by
    rw [toNat_append_one, BitVec.toNat_ofNat]
    omega
  have hexponent : (BitVec.ofNat 11 b).toNat = b := by
    rw [BitVec.toNat_ofNat, Nat.mod_eq_of_lt (by omega)]
  simp only [UnpackedFloat.unpack, unpackMantissa_packComponents, unpackExponent_packComponents,
    unpackSign_packComponents, if_neg hzero, if_neg hones, hmantissa, hexponent, exponentBias_eq]
  congr 1

theorem unpack_packComponents_subnormal (s : Sign) {m : Nat} (hm : 0 < m) (hm' : m < 2 ^ 52) :
    UnpackedFloat.unpack .binary64 (packComponents .binary64 s 0#11 (BitVec.ofNat 52 m)) =
      .finite s m (-1074) hm := by
  have hones : (0#11 : BitVec 11) ≠ -1#11 := by decide
  have hzero : BitVec.ofNat 52 m ≠ 0#52 := ofNat_ne_ofNat hm' (by decide) (by omega)
  have hmantissa : (BitVec.ofNat 52 m).toNat = m := by
    rw [BitVec.toNat_ofNat, Nat.mod_eq_of_lt hm']
  simp only [UnpackedFloat.unpack, unpackMantissa_packComponents, unpackExponent_packComponents,
    unpackSign_packComponents, if_neg hones, dif_neg hzero, if_true, hmantissa, exponentBias_eq]
  rfl

/-- Packing loses nothing of a double that is not too great. -/
theorem unpack_pack_finite (s : Sign) {m : Nat} {e : Int} (hm : 0 < m) (h : Canonical m e)
    (he : e ≤ 971) : (pack (.finite s m e hm)).unpack = .finite s m e hm := by
  have hle := h.le
  have hlog := h.log2_le
  have hlt := h.lt
  have hbits : Format.binary64.mantissaBits = 53 := by decide
  have hbias : (e + (Format.binary64.exponentBias : Int) + (52 : Nat)).toNat =
      (e + 1075).toNat := by
    rw [exponentBias_eq]
    omega
  change UnpackedFloat.unpack .binary64 (UnpackedFloat.pack .binary64 (.finite s m e hm)) = _
  simp only [UnpackedFloat.pack, hbias, hbits]
  rw [if_neg (by omega)]
  by_cases hnormal : 2 ^ 52 ≤ m
  · have hlog52 : 52 ≤ m.log2 := (Nat.le_log2 (Nat.ne_of_gt hm)).mpr hnormal
    rw [if_pos (by omega), unpack_packComponents_normal s (by omega) (by omega) hnormal hlt]
    congr 1
    omega
  · have hlog52 : m.log2 < 52 := (Nat.log2_lt (Nat.ne_of_gt hm)).mpr (by omega)
    rw [if_neg (by omega), unpack_packComponents_subnormal s hm (by omega)]
    congr 1
    rcases h.normal with hge | hmin
    · exact absurd hge hnormal
    · exact hmin.symm

theorem unpack_pack_overflow (s : Sign) {m : Nat} {e : Int} (hm : 0 < m) (he : 971 < e) :
    (pack (.finite s m e hm)).unpack = .infinity s := by
  have hbias : (e + (Format.binary64.exponentBias : Int) + (52 : Nat)).toNat =
      (e + 1075).toNat := by
    rw [exponentBias_eq]
    omega
  change UnpackedFloat.unpack .binary64 (UnpackedFloat.pack .binary64 (.finite s m e hm)) = _
  simp only [UnpackedFloat.pack, hbias]
  rw [if_pos (by omega)]
  cases s <;> rfl

theorem unpack_pack_infinity (s : Sign) : (pack (.infinity s)).unpack = .infinity s := by
  cases s <;> rfl

theorem unpack_pack_zero (s : Sign) : (pack (.zero s)).unpack = .zero s := by
  cases s <;> rfl

def IsDouble : UnpackedFloat → Prop
  | .finite _ m e _ => Canonical m e ∧ e ≤ 971
  | _ => True

theorem isDouble_unpack (f : Float.Model) : IsDouble f.unpack := by
  have hbits : ∀ b : BitVec 64, IsDouble (UnpackedFloat.unpack .binary64 b) := by
    intro b
    have hmantissa : (@unpackMantissa .binary64 b).toNat < 2 ^ 52 := BitVec.isLt _
    have hexponent : (@unpackExponent .binary64 b).toNat < 2 ^ 11 := BitVec.isLt _
    simp only [UnpackedFloat.unpack]
    split_ifs with hones hzero hzero' hmzero
    · trivial
    · trivial
    · trivial
    · have hexp0 : (@unpackExponent .binary64 b).toNat = 0 := by
        rw [hzero']
        rfl
      refine ⟨⟨by omega, ?_, Or.inr ?_⟩, ?_⟩ <;> rw [hexp0, exponentBias_eq] <;> decide
    · have hpos : (@unpackExponent .binary64 b).toNat ≠ 0 :=
        fun h => hzero' (BitVec.eq_of_toNat_eq h)
      have htop : (@unpackExponent .binary64 b).toNat ≠ 2047 :=
        fun h => hones (BitVec.eq_of_toNat_eq h)
      refine ⟨⟨?_, ?_, Or.inl ?_⟩, ?_⟩
      · rw [toNat_append_one]
        omega
      · rw [exponentBias_eq]
        omega
      · rw [toNat_append_one]
        omega
      · rw [exponentBias_eq]
        omega
  exact hbits _

theorem unpack_pack_of_isDouble {x : UnpackedFloat} (h : IsDouble x) : (pack x).unpack = x := by
  cases x with
  | infinity s => exact unpack_pack_infinity s
  | notANumber => rfl
  | zero s => exact unpack_pack_zero s
  | finite s m e hm => exact unpack_pack_finite s hm h.1 h.2

end MediaPipeline.Double
