import MediaPipeline.Proofs.Time.Laws
import MediaPipeline.Proofs.Time.Rounding

/-!
# Doubles as media times

Doubles other than the values that are not numbers are ordered as whole numbers of units, with the
infinities beyond all others. A sum is rounded, but never past a double, so adding a length that is
not negative never leads back.
-/

namespace MediaPipeline.Double

open Float.Model Float.Model.UnpackedFloat

/-! ## The order of doubles -/

/-- The place of the last bit of the greatest doubles. -/
def greatestPlace : Nat := 2045

/-- More units than any finite double has. -/
def infinityUnits : Nat := 2 ^ (53 + greatestPlace)

/-- The signed number of units; zero for what is not a number. -/
def rank : UnpackedFloat → Int
  | .infinity s => s.apply infinityUnits
  | .notANumber => 0
  | .zero _ => 0
  | .finite s m e _ => s.apply (units m e)

theorem units_lt_two_pow {m k : Nat} {e : Int} (h : Canonical m e) (hk : (e + 1074).toNat ≤ k) :
    units m e < 2 ^ (53 + k) := by
  calc
    m * 2 ^ (e + 1074).toNat < 2 ^ 53 * 2 ^ (e + 1074).toNat :=
      Nat.mul_lt_mul_of_pos_right h.lt (Nat.two_pow_pos _)
    _ ≤ 2 ^ 53 * 2 ^ k := Nat.mul_le_mul_left _ (Nat.pow_le_pow_right (by decide) hk)
    _ = 2 ^ (53 + k) := (Nat.pow_add ..).symm

theorem units_lt_infinityUnits {m : Nat} {e : Int} (h : Canonical m e) (he : e ≤ 971) :
    units m e < infinityUnits := by
  have hplace : (e + 1074).toNat ≤ greatestPlace := by
    unfold greatestPlace
    omega
  exact units_lt_two_pow h hplace

theorem units_pos {m : Nat} {e : Int} (hm : 0 < m) : 0 < units m e :=
  Nat.mul_pos hm (Nat.two_pow_pos _)

theorem infinityUnits_pos : 0 < infinityUnits := Nat.two_pow_pos _

theorem compare_finite {m n : Nat} {e f : Int} (hm : Canonical m e) (hn : Canonical n f) :
    (compare e f).then (compare m n) = compare (units m e : Int) (units n f : Int) := by
  rw [hm.compare_units hn]
  rcases lt_trichotomy (units m e) (units n f) with h | h | h
  · rw [compare_lt_iff_lt.mpr h, compare_lt_iff_lt.mpr (Int.ofNat_lt.mpr h)]
  · simp [h]
  · rw [compare_gt_iff_gt.mpr h, compare_gt_iff_gt.mpr (Int.ofNat_lt.mpr h)]

theorem swap_compare_neg (a b : Int) : (compare a b).swap = compare (-a) (-b) := by
  rcases lt_trichotomy a b with h | rfl | h
  · rw [compare_lt_iff_lt.mpr h, compare_gt_iff_gt.mpr (Int.neg_lt_neg h)]
    rfl
  · simp
  · rw [compare_gt_iff_gt.mpr h, compare_lt_iff_lt.mpr (Int.neg_lt_neg h)]
    rfl

theorem compare_eq {x y : UnpackedFloat} (hx : IsDouble x) (hy : IsDouble y)
    (hxn : x.isNaN = false) (hyn : y.isNaN = false) :
    x.compare y = some (compare (rank x) (rank y)) := by
  have hinf := infinityUnits_pos
  have hlt : ∀ {a b : Int}, a < b → some Ordering.lt = some (compare a b) :=
    fun h => congrArg some (compare_lt_iff_lt.mpr h).symm
  have hgt : ∀ {a b : Int}, b < a → some Ordering.gt = some (compare a b) :=
    fun h => congrArg some (compare_gt_iff_gt.mpr h).symm
  have heq : ∀ a : Int, some Ordering.eq = some (compare a a) :=
    fun a => congrArg some (compare_eq_iff_eq.mpr rfl).symm
  cases x with
  | notANumber => exact absurd hxn (by decide)
  | infinity s =>
      cases y with
      | notANumber => exact absurd hyn (by decide)
      | infinity t =>
          cases s <;> cases t
          · exact heq _
          · exact hlt (show -(infinityUnits : Int) < (infinityUnits : Int) by omega)
          · exact hgt (show -(infinityUnits : Int) < (infinityUnits : Int) by omega)
          · exact heq _
      | zero t =>
          cases s
          · exact hlt (show -(infinityUnits : Int) < 0 by omega)
          · exact hgt (show 0 < (infinityUnits : Int) by omega)
      | finite t n f hn =>
          have hbound := units_lt_infinityUnits hy.1 hy.2
          cases s <;> cases t
          · exact hlt (show -(infinityUnits : Int) < -(units n f : Int) by omega)
          · exact hlt (show -(infinityUnits : Int) < (units n f : Int) by omega)
          · exact hgt (show -(units n f : Int) < (infinityUnits : Int) by omega)
          · exact hgt (show (units n f : Int) < (infinityUnits : Int) by omega)
  | zero s =>
      cases y with
      | notANumber => exact absurd hyn (by decide)
      | infinity t =>
          cases t
          · exact hgt (show -(infinityUnits : Int) < 0 by omega)
          · exact hlt (show 0 < (infinityUnits : Int) by omega)
      | zero t => exact heq 0
      | finite t n f hn =>
          have hpos := units_pos (e := f) hn
          cases t
          · exact hgt (show -(units n f : Int) < 0 by omega)
          · exact hlt (show 0 < (units n f : Int) by omega)
  | finite s m e hm =>
      have hbound := units_lt_infinityUnits hx.1 hx.2
      have hpos := units_pos (e := e) hm
      cases y with
      | notANumber => exact absurd hyn (by decide)
      | infinity t =>
          cases s <;> cases t
          · exact hgt (show -(infinityUnits : Int) < -(units m e : Int) by omega)
          · exact hlt (show -(units m e : Int) < (infinityUnits : Int) by omega)
          · exact hgt (show -(infinityUnits : Int) < (units m e : Int) by omega)
          · exact hlt (show (units m e : Int) < (infinityUnits : Int) by omega)
      | zero t =>
          cases s
          · exact hlt (show -(units m e : Int) < 0 by omega)
          · exact hgt (show 0 < (units m e : Int) by omega)
      | finite t n f hn =>
          have hpos' := units_pos (e := f) hn
          cases s <;> cases t
          · change some ((compare e f).then (compare m n)).swap = _
            rw [compare_finite hx.1 hy.1, swap_compare_neg]
            rfl
          · exact hlt (show -(units m e : Int) < (units n f : Int) by omega)
          · exact hgt (show -(units n f : Int) < (units m e : Int) by omega)
          · exact congrArg some (compare_finite hx.1 hy.1)

/-! ## Rounding -/

/-- The rank of the double nearest to a number of units. Whatever is too great becomes infinite. -/
def roundRank : Int → Int
  | .ofNat n => (min (roundUnits n) infinityUnits : Nat)
  | .negSucc n => -(min (roundUnits (n + 1)) infinityUnits : Nat)

theorem min_roundUnits_zero : min (roundUnits 0) infinityUnits = 0 := by
  have hzero : roundUnits 0 = 0 := by simp [roundUnits, roundHalfEven]
  rw [hzero, Nat.zero_min]

theorem roundRank_zero : roundRank 0 = 0 := congrArg Int.ofNat min_roundUnits_zero

theorem roundRank_mono {v w : Int} (hvw : v ≤ w) : roundRank v ≤ roundRank w := by
  have hmin : ∀ {m n : Nat}, m ≤ n →
      min (roundUnits m) infinityUnits ≤ min (roundUnits n) infinityUnits :=
    fun hmn => min_le_min_right _ (roundUnits_mono hmn)
  cases v with
  | ofNat m =>
      cases w with
      | ofNat n => exact Int.ofNat_le.mpr (hmin (Int.ofNat_le.mp hvw))
      | negSucc n =>
          have hlt : Int.negSucc n < Int.ofNat m :=
            (Int.negSucc_lt_zero n).trans_le (Int.natCast_nonneg m)
          exact absurd hvw hlt.not_ge
  | negSucc m =>
      cases w with
      | ofNat n =>
          exact (Int.neg_nonpos_of_nonneg (Int.natCast_nonneg _)).trans (Int.natCast_nonneg _)
      | negSucc n => exact Int.neg_le_neg (Int.ofNat_le.mpr (hmin (by omega)))

theorem roundRank_apply (s : Sign) (n : Nat) :
    roundRank (s.apply n) = s.apply (min (roundUnits n) infinityUnits : Nat) := by
  cases s with
  | positive => rfl
  | negative =>
      cases n with
      | zero => rw [min_roundUnits_zero]; exact roundRank_zero
      | succ n => rfl

/-- A finite double is not rounded. -/
theorem roundRank_rank {x : UnpackedFloat} (hx : IsDouble x) (hfinite : x.isFinite = true) :
    roundRank (rank x) = rank x := by
  cases x with
  | notANumber => exact absurd hfinite (by decide)
  | infinity s => exact absurd hfinite (by cases s <;> decide)
  | zero s => exact roundRank_zero
  | finite s m e hm =>
      obtain ⟨hle, hge⟩ := roundsTo_roundUnits (units m e) m e hx.1
      have hexact : roundUnits (units m e) = units m e := Nat.le_antisymm (hge le_rfl) (hle le_rfl)
      have hless := units_lt_infinityUnits hx.1 hx.2
      change roundRank (s.apply (units m e : Int)) = s.apply (units m e : Int)
      rw [roundRank_apply, hexact, min_eq_left hless.le]

theorem rank_round (s : Sign) {n : Nat} (hn : 0 < n) {e : Int} (he : -1074 ≤ e) :
    (pack (UnpackedFloat.round .binary64 s n e)).unpack.isNaN = false ∧
      rank (pack (UnpackedFloat.round .binary64 s n e)).unpack =
        roundRank (s.apply (units n e)) := by
  obtain ⟨m, f, hm, hround, hcanonical, hunits⟩ := round_eq s hn he
  rw [hround, roundRank_apply, ← hunits]
  by_cases hf : f ≤ 971
  · have hless := units_lt_infinityUnits hcanonical hf
    rw [unpack_pack_finite s hm hcanonical hf, min_eq_left hless.le]
    exact ⟨rfl, rfl⟩
  · have hnormal : 2 ^ 52 ≤ m := hcanonical.normal.resolve_right (by omega)
    have hgreat : infinityUnits ≤ units m f := by
      calc
        infinityUnits = 2 ^ 52 * 2 ^ (greatestPlace + 1) := by
          rw [infinityUnits, ← Nat.pow_add]
          congr 1
        _ ≤ m * 2 ^ (f + 1074).toNat := by
          refine Nat.mul_le_mul hnormal (Nat.pow_le_pow_right (by decide) ?_)
          unfold greatestPlace
          omega
    rw [unpack_pack_overflow s hm (by omega), min_eq_right hgreat]
    exact ⟨rfl, rfl⟩

theorem rank_normalize (n : Int) {e : Int} (he : -1074 ≤ e) :
    (pack (UnpackedFloat.normalize .binary64 n e .positive)).unpack.isNaN = false ∧
      rank (pack (UnpackedFloat.normalize .binary64 n e .positive)).unpack =
        roundRank (n * 2 ^ (e + 1074).toNat) := by
  rcases lt_trichotomy n 0 with hneg | rfl | hpos
  · have hround : UnpackedFloat.normalize .binary64 n e .positive =
        UnpackedFloat.round .binary64 .negative (-n).toNat e := by
      simp only [UnpackedFloat.normalize, compare_lt_iff_lt.mpr hneg]
    have hunits : Sign.negative.apply (units (-n).toNat e : Int) = n * 2 ^ (e + 1074).toNat := by
      change -(units (-n).toNat e : Int) = _
      unfold units
      push_cast
      rw [Int.toNat_of_nonneg (by omega)]
      ring
    rw [hround, ← hunits]
    exact rank_round .negative (by omega) he
  · have hzero : UnpackedFloat.normalize .binary64 0 e .positive = .zero .positive := rfl
    rw [hzero, unpack_pack_zero, Int.zero_mul, roundRank_zero]
    exact ⟨rfl, rfl⟩
  · have hround : UnpackedFloat.normalize .binary64 n e .positive =
        UnpackedFloat.round .binary64 .positive n.toNat e := by
      simp only [UnpackedFloat.normalize, compare_gt_iff_gt.mpr hpos]
    have hunits : Sign.positive.apply (units n.toNat e : Int) = n * 2 ^ (e + 1074).toNat := by
      change (units n.toNat e : Int) = _
      unfold units
      push_cast
      rw [Int.toNat_of_nonneg (by omega)]
    rw [hround, ← hunits]
    exact rank_round .positive (by omega) he

/-! ## Sums -/

theorem apply_decreaseExponent (s : Sign) {m : Nat} {e f : Int} (hf : -1074 ≤ f) (hfe : f ≤ e) :
    s.apply ((decreaseExponent m e f).1 : Int) * 2 ^ (f + 1074).toNat =
      s.apply (units m e : Int) := by
  have hexp : (e + 1074).toNat = (e - f).toNat + (f + 1074).toNat := by omega
  have hnat : (decreaseExponent m e f).1 * 2 ^ (f + 1074).toNat = units m e := by
    simp only [decreaseExponent, Nat.shiftLeft_eq, units]
    rw [hexp, Nat.pow_add, Nat.mul_assoc]
  cases s with
  | positive =>
      change ((decreaseExponent m e f).1 : Int) * _ = (units m e : Int)
      rw [← hnat]
      push_cast
      ring
  | negative =>
      change -((decreaseExponent m e f).1 : Int) * _ = -(units m e : Int)
      rw [← hnat]
      push_cast
      ring

/-- Adding a finite length that is not negative never leads back. -/
theorem rank_le_rank_add {x d : UnpackedFloat} (hx : IsDouble x) (hd : IsDouble d)
    (hxn : x.isNaN = false) (hfinite : d.isFinite = true) (hnonneg : 0 ≤ rank d) :
    (pack (UnpackedFloat.add .binary64 x d)).unpack.isNaN = false ∧
      rank x ≤ rank (pack (UnpackedFloat.add .binary64 x d)).unpack := by
  cases d with
  | notANumber => exact absurd hfinite (by decide)
  | infinity t => exact absurd hfinite (by cases t <;> decide)
  | zero t =>
      cases x with
      | notANumber => exact absurd hxn (by decide)
      | infinity s =>
          change (pack (.infinity s)).unpack.isNaN = false ∧ _ ≤ rank (pack (.infinity s)).unpack
          rw [unpack_pack_infinity]
          exact ⟨rfl, le_refl _⟩
      | zero s => cases s <;> cases t <;> exact ⟨by decide, by decide⟩
      | finite s m e hm =>
          change (pack (.finite s m e hm)).unpack.isNaN = false ∧
            _ ≤ rank (pack (.finite s m e hm)).unpack
          rw [unpack_pack_of_isDouble hx]
          exact ⟨rfl, le_refl _⟩
  | finite t n f hn =>
      cases x with
      | notANumber => exact absurd hxn (by decide)
      | infinity s =>
          change (pack (.infinity s)).unpack.isNaN = false ∧ _ ≤ rank (pack (.infinity s)).unpack
          rw [unpack_pack_infinity]
          exact ⟨rfl, le_refl _⟩
      | zero s =>
          change (pack (.finite t n f hn)).unpack.isNaN = false ∧
            0 ≤ rank (pack (.finite t n f hn)).unpack
          rw [unpack_pack_of_isDouble hd]
          exact ⟨rfl, hnonneg⟩
      | finite s m e hm =>
          have he := hx.1.le
          have hf := hd.1.le
          have hsum : (s.apply ((decreaseExponent m e (min e f)).1 : Int) +
              t.apply ((decreaseExponent n f (min e f)).1 : Int)) * 2 ^ (min e f + 1074).toNat =
              rank (.finite s m e hm) + rank (.finite t n f hn) := by
            rw [Int.add_mul, apply_decreaseExponent s (by omega) (by omega),
              apply_decreaseExponent t (by omega) (by omega)]
            rfl
          obtain ⟨hnan, hrank⟩ := rank_normalize
            (s.apply ((decreaseExponent m e (min e f)).1 : Int) +
              t.apply ((decreaseExponent n f (min e f)).1 : Int)) (show -1074 ≤ min e f by omega)
          rw [hsum] at hrank
          refine ⟨hnan, ?_⟩
          calc
            rank (.finite s m e hm) = roundRank (rank (.finite s m e hm)) :=
              (roundRank_rank hx rfl).symm
            _ ≤ roundRank (rank (.finite s m e hm) + rank (.finite t n f hn)) :=
              roundRank_mono (by omega)
            _ = _ := hrank.symm

/-! ## Doubles as times -/

theorem compare_of_isNaN {x y : UnpackedFloat} (h : x.isNaN = true ∨ y.isNaN = true) :
    x.compare y = none := by
  cases x <;> cases y <;> simp_all [UnpackedFloat.isNaN, UnpackedFloat.compare]

theorem le_iff {a b : Float} : a ≤ b ↔ a.toModel.unpack.isNaN = false ∧
    b.toModel.unpack.isNaN = false ∧ rank a.toModel.unpack ≤ rank b.toModel.unpack := by
  have hle : a ≤ b ↔ (a.toModel.unpack.compare b.toModel.unpack).any (·.isLE) = true := by
    change decide (a.toModel ≤ b.toModel) = true ↔ _
    rw [decide_eq_true_iff]
    rfl
  rw [hle]
  cases ha : a.toModel.unpack.isNaN with
  | true => simp [compare_of_isNaN (Or.inl ha)]
  | false =>
      cases hb : b.toModel.unpack.isNaN with
      | true => simp [compare_of_isNaN (Or.inr hb)]
      | false =>
          rw [compare_eq (isDouble_unpack _) (isDouble_unpack _) ha hb]
          simp [Ordering.isLE_iff_ne_gt, compare_gt_iff_gt]

theorem lt_iff {a b : Float} : a < b ↔ a.toModel.unpack.isNaN = false ∧
    b.toModel.unpack.isNaN = false ∧ rank a.toModel.unpack < rank b.toModel.unpack := by
  have hlt : a < b ↔ (a.toModel.unpack.compare b.toModel.unpack == some .lt) = true := by
    change decide (a.toModel < b.toModel) = true ↔ _
    rw [decide_eq_true_iff]
    rfl
  rw [hlt]
  cases ha : a.toModel.unpack.isNaN with
  | true => simp [compare_of_isNaN (Or.inl ha)]
  | false =>
      cases hb : b.toModel.unpack.isNaN with
      | true => simp [compare_of_isNaN (Or.inr hb)]
      | false =>
          rw [compare_eq (isDouble_unpack _) (isDouble_unpack _) ha hb]
          simp [compare_lt_iff_lt]

theorem beq_iff {a b : Float} : (a == b) = true ↔ a.toModel.unpack.isNaN = false ∧
    b.toModel.unpack.isNaN = false ∧ rank a.toModel.unpack = rank b.toModel.unpack := by
  have heq : (a == b) = (a.toModel.unpack.compare b.toModel.unpack == some .eq) := rfl
  rw [heq]
  cases ha : a.toModel.unpack.isNaN with
  | true => simp [compare_of_isNaN (Or.inl ha)]
  | false =>
      cases hb : b.toModel.unpack.isNaN with
      | true => simp [compare_of_isNaN (Or.inr hb)]
      | false =>
          rw [compare_eq (isDouble_unpack _) (isDouble_unpack _) ha hb]
          simp

theorem unpack_posInf : (MediaTime.posInf : Float).toModel.unpack = .infinity .positive := rfl

theorem unpack_negInf : (MediaTime.negInf : Float).toModel.unpack = .infinity .negative := rfl

theorem rank_bounds {x : UnpackedFloat} (h : IsDouble x) :
    -(infinityUnits : Int) ≤ rank x ∧ rank x ≤ infinityUnits := by
  have hpos := infinityUnits_pos
  cases x with
  | notANumber => exact ⟨show -(infinityUnits : Int) ≤ 0 by omega, Int.natCast_nonneg _⟩
  | zero s => exact ⟨show -(infinityUnits : Int) ≤ 0 by omega, Int.natCast_nonneg _⟩
  | infinity s =>
      cases s
      · exact ⟨le_refl _, show -(infinityUnits : Int) ≤ infinityUnits by omega⟩
      · exact ⟨show -(infinityUnits : Int) ≤ infinityUnits by omega, le_refl _⟩
  | finite s m e hm =>
      have hlt := units_lt_infinityUnits h.1 h.2
      cases s
      · exact ⟨show -(infinityUnits : Int) ≤ -(units m e : Int) by omega,
          show -(units m e : Int) ≤ infinityUnits by omega⟩
      · exact ⟨show -(infinityUnits : Int) ≤ (units m e : Int) by omega,
          show (units m e : Int) ≤ infinityUnits by omega⟩

theorem isFinite_unpack {d : Float} (h : MediaTime.isFinite d = true) :
    d.toModel.unpack.isFinite = true := by
  simp only [MediaTime.isFinite, Bool.and_eq_true, decide_eq_true_eq] at h
  obtain ⟨-, hnan, hlow⟩ := lt_iff.mp h.1
  obtain ⟨-, -, hhigh⟩ := lt_iff.mp h.2
  rw [unpack_negInf] at hlow
  rw [unpack_posInf] at hhigh
  cases hd : d.toModel.unpack with
  | notANumber => rw [hd] at hnan; exact absurd hnan (by decide)
  | zero s => rfl
  | finite s m e hm => rfl
  | infinity s =>
      rw [hd] at hlow hhigh
      cases s
      · exact absurd hlow (lt_irrefl _)
      · exact absurd hhigh (lt_irrefl _)

instance : LawfulMediaTime Float where
  le_trans hab hbc := by
    obtain ⟨ha, _, hle⟩ := le_iff.mp hab
    obtain ⟨_, hc, hle'⟩ := le_iff.mp hbc
    exact le_iff.mpr ⟨ha, hc, hle.trans hle'⟩
  isNumber_of_le h := by
    obtain ⟨ha, hb, _⟩ := le_iff.mp h
    exact ⟨le_iff.mpr ⟨ha, ha, le_refl _⟩, le_iff.mpr ⟨hb, hb, le_refl _⟩⟩
  le_total ha hb := by
    obtain ⟨ha, -, -⟩ := le_iff.mp ha
    obtain ⟨hb, -, -⟩ := le_iff.mp hb
    rcases Int.le_total (rank _) (rank _) with h | h
    · exact Or.inl (le_iff.mpr ⟨ha, hb, h⟩)
    · exact Or.inr (le_iff.mpr ⟨hb, ha, h⟩)
  lt_iff {a b} := by
    constructor
    · intro h
      obtain ⟨ha, hb, hlt⟩ := lt_iff.mp h
      refine ⟨le_iff.mpr ⟨ha, hb, hlt.le⟩, fun hle => ?_⟩
      obtain ⟨-, -, hle⟩ := le_iff.mp hle
      omega
    · rintro ⟨hle, hnot⟩
      obtain ⟨ha, hb, -⟩ := le_iff.mp hle
      refine lt_iff.mpr ⟨ha, hb, ?_⟩
      by_contra hlt
      exact hnot (le_iff.mpr ⟨hb, ha, by omega⟩)
  beq_iff {a b} := by
    constructor
    · intro h
      obtain ⟨ha, hb, heq⟩ := beq_iff.mp h
      exact ⟨le_iff.mpr ⟨ha, hb, heq.le⟩, le_iff.mpr ⟨hb, ha, heq.ge⟩⟩
    · rintro ⟨hab, hba⟩
      obtain ⟨ha, hb, hle⟩ := le_iff.mp hab
      obtain ⟨-, -, hge⟩ := le_iff.mp hba
      exact beq_iff.mpr ⟨ha, hb, by omega⟩
  negInf_le h := by
    obtain ⟨ha, -, -⟩ := le_iff.mp h
    exact le_iff.mpr ⟨rfl, ha, (rank_bounds (isDouble_unpack _)).1⟩
  le_posInf h := by
    obtain ⟨ha, -, -⟩ := le_iff.mp h
    exact le_iff.mpr ⟨ha, rfl, (rank_bounds (isDouble_unpack _)).2⟩
  le_add ha hd hnonneg := by
    obtain ⟨ha, -, -⟩ := le_iff.mp ha
    obtain ⟨-, -, hnonneg⟩ := le_iff.mp hnonneg
    change 0 ≤ rank _ at hnonneg
    obtain ⟨hnan, hle⟩ := rank_le_rank_add (isDouble_unpack _) (isDouble_unpack _) ha
      (isFinite_unpack hd) hnonneg
    exact le_iff.mpr ⟨ha, hnan, hle⟩
  isFinite_maxGap := by decide
  maxGap_nonneg := by decide

theorem rank_le_rank_add_infinity {x : UnpackedFloat} (hx : IsDouble x)
    (hfinite : x.isFinite = true) :
    (pack (UnpackedFloat.add .binary64 x (.infinity .positive))).unpack.isNaN = false ∧
      rank x ≤ rank (pack (UnpackedFloat.add .binary64 x (.infinity .positive))).unpack := by
  have hsum : UnpackedFloat.add .binary64 x (.infinity .positive) = .infinity .positive := by
    cases x with
    | notANumber => exact absurd hfinite (by decide)
    | infinity s => exact absurd hfinite (by cases s <;> decide)
    | zero s => rfl
    | finite s m e hm => rfl
  rw [hsum, unpack_pack_infinity]
  exact ⟨rfl, (rank_bounds hx).2⟩

/-- A finite time plus a length that is not negative, be it infinite. -/
theorem le_add_of_nonneg {a d : Float} (ha : MediaTime.isFinite a = true) (hd : 0 ≤ d) :
    a ≤ a + d := by
  obtain ⟨ha', -, -⟩ := le_iff.mp (MediaTime.isNumber_of_isFinite ha)
  obtain ⟨-, hnan, hnonneg⟩ := le_iff.mp hd
  change 0 ≤ rank _ at hnonneg
  have hsum : (pack (UnpackedFloat.add .binary64 a.toModel.unpack d.toModel.unpack)).unpack.isNaN =
        false ∧ rank a.toModel.unpack ≤
      rank (pack (UnpackedFloat.add .binary64 a.toModel.unpack d.toModel.unpack)).unpack := by
    cases hunpack : d.toModel.unpack.isFinite with
    | true => exact rank_le_rank_add (isDouble_unpack _) (isDouble_unpack _) ha' hunpack hnonneg
    | false =>
        have hinfinity : d.toModel.unpack = .infinity .positive := by
          cases hd' : d.toModel.unpack with
          | notANumber => exact absurd (hd' ▸ hnan) (by decide)
          | infinity s =>
              cases s
              · have hpos := infinityUnits_pos
                rw [hd'] at hnonneg
                change 0 ≤ -(infinityUnits : Int) at hnonneg
                omega
              · rfl
          | zero s => simp [hd', UnpackedFloat.isFinite] at hunpack
          | finite s m e hm => simp [hd', UnpackedFloat.isFinite] at hunpack
        rw [hinfinity]
        exact rank_le_rank_add_infinity (isDouble_unpack _) (isFinite_unpack ha)
  exact le_iff.mpr ⟨ha', hsum.1, hsum.2⟩

end MediaPipeline.Double
