import MediaPipeline.Proofs.Time.Double
import MediaPipeline.Proofs.Time.Exact

/-!
# Differences of times

A difference grows with its first part and falls with its second one, rounded or not. An infinite
time minus itself need not be a number.
-/

namespace MediaPipeline

open MediaTime

class LawfulDifferences (T : Type) [MediaTime T] : Prop where
  isNumber_of_sub {a b : T} : IsNumber (a - b) → IsNumber a ∧ IsNumber b
  /-- A lesser time does not turn the difference into something that is not a number, unless it is
  the least time of all. -/
  isNumber_sub_of_le {a b c : T} : negInf < a → a ≤ b → IsNumber (b - c) → IsNumber (a - c)
  isNumber_sub_of_ge {a b c : T} : negInf < a → a ≤ b → IsNumber (c - b) → IsNumber (c - a)
  sub_le_sub {a b c d : T} :
    a ≤ b → d ≤ c → IsNumber (a - c) → IsNumber (b - d) → a - c ≤ b - d
  negInf_lt_sub {a b : T} : b < a → negInf < a - b
  sub_nonneg {a b : T} : b ≤ a → negInf < a - b → 0 ≤ a - b

/-! ## Exact times -/

namespace ExactTime

theorem neg_le_neg {a b : ExactTime} (hab : a ≤ b) : b.neg ≤ a.neg := by
  cases a <;> cases b <;> simp_all [neg]

protected theorem sub_le_sub {a b c d : ExactTime} (hab : a ≤ b) (hdc : d ≤ c) :
    a - c ≤ b - d := by
  have hneg := ExactTime.add_le_add_right (neg_le_neg hdc) b
  rw [ExactTime.add_comm c.neg, ExactTime.add_comm d.neg] at hneg
  exact LawfulMediaTime.le_trans (ExactTime.add_le_add_right hab c.neg) hneg

instance : LawfulDifferences ExactTime where
  isNumber_of_sub _ := ⟨ExactTime.refl _, ExactTime.refl _⟩
  isNumber_sub_of_le _ _ _ := ExactTime.refl _
  isNumber_sub_of_ge _ _ _ := ExactTime.refl _
  sub_le_sub hab hdc _ _ := ExactTime.sub_le_sub hab hdc
  negInf_lt_sub {a b} hba := by
    rw [lt_iff_not_le] at hba
    change negInf < _
    rw [lt_iff_not_le, sub_eq]
    cases a <;> cases b <;> simp_all [neg]
  sub_nonneg {a b} hba hnegInf := by
    change negInf < _ at hnegInf
    rw [lt_iff_not_le, sub_eq] at hnegInf
    rw [sub_eq, zero_eq]
    cases a <;> cases b <;> simp_all [neg]

end ExactTime

/-! ## Doubles -/

namespace Double

open Float.Model Float.Model.UnpackedFloat

/-- What a difference of doubles may be, by the ranks of the two. -/
inductive IsDifference (p q : Int) : UnpackedFloat → Prop
  | notANumber (heq : p = q) (hinf : p = infinityUnits ∨ p = -infinityUnits) :
      IsDifference p q .notANumber
  | posInf (h : p = infinityUnits ∧ q < infinityUnits ∨ -infinityUnits < p ∧ q = -infinityUnits) :
      IsDifference p q (.infinity .positive)
  | negInf (h : p = -infinityUnits ∧ -infinityUnits < q ∨ p < infinityUnits ∧ q = infinityUnits) :
      IsDifference p q (.infinity .negative)
  | rounded {z : UnpackedFloat} (hp : -infinityUnits < p ∧ p < infinityUnits)
      (hq : -infinityUnits < q ∧ q < infinityUnits) (hnan : z.isNaN = false)
      (hrank : rank z = roundRank (p - q)) : IsDifference p q z

theorem rank_finite_bounds {x : UnpackedFloat} (hx : IsDouble x) (hfinite : x.isFinite = true) :
    -(infinityUnits : Int) < rank x ∧ rank x < infinityUnits := by
  have hpos := infinityUnits_pos
  cases x with
  | notANumber => exact absurd hfinite (by decide)
  | infinity s => exact absurd hfinite (by cases s <;> decide)
  | zero s => exact ⟨show -(infinityUnits : Int) < 0 by omega, show (0 : Int) < _ by omega⟩
  | finite s m e hm =>
      have hless := units_lt_infinityUnits hx.1 hx.2
      cases s
      · exact ⟨show -(infinityUnits : Int) < -(units m e : Int) by omega,
          show -(units m e : Int) < (infinityUnits : Int) by omega⟩
      · exact ⟨show -(infinityUnits : Int) < (units m e : Int) by omega,
          show (units m e : Int) < (infinityUnits : Int) by omega⟩

theorem apply_neg (s : Sign) (n : Int) : (-s).apply n = -s.apply n := by
  cases s
  · exact (neg_neg n).symm
  · rfl

theorem rank_neg (x : UnpackedFloat) : rank x.neg = -rank x := by
  cases x with
  | notANumber => rfl
  | zero s => rfl
  | infinity s => exact apply_neg s _
  | finite s m e hm => exact apply_neg s _

/-- Finite doubles are subtracted exactly, and the difference is rounded. -/
theorem rank_sub_of_isFinite {x y : UnpackedFloat} (hx : IsDouble x) (hy : IsDouble y)
    (hxf : x.isFinite = true) (hyf : y.isFinite = true) :
    (pack (UnpackedFloat.sub .binary64 x y)).unpack.isNaN = false ∧
      rank (pack (UnpackedFloat.sub .binary64 x y)).unpack = roundRank (rank x - rank y) := by
  cases x with
  | notANumber => exact absurd hxf (by decide)
  | infinity s => exact absurd hxf (by cases s <;> decide)
  | zero s =>
      cases y with
      | notANumber => exact absurd hyf (by decide)
      | infinity t => exact absurd hyf (by cases t <;> decide)
      | zero t =>
          change _ ∧ _ = roundRank 0
          rw [roundRank_zero]
          cases s <;> cases t <;> exact ⟨by decide, by decide⟩
      | finite t n f hn =>
          have hneg : IsDouble (.finite (-t) n f hn) := hy
          change (pack (.finite (-t) n f hn)).unpack.isNaN = false ∧
            rank (pack (.finite (-t) n f hn)).unpack = roundRank (0 - rank (.finite t n f hn))
          rw [unpack_pack_of_isDouble hneg, zero_sub, ← rank_neg]
          exact ⟨rfl, (roundRank_rank hneg rfl).symm⟩
  | finite s m e hm =>
      cases y with
      | notANumber => exact absurd hyf (by decide)
      | infinity t => exact absurd hyf (by cases t <;> decide)
      | zero t =>
          change (pack (.finite s m e hm)).unpack.isNaN = false ∧
            rank (pack (.finite s m e hm)).unpack = roundRank (rank (.finite s m e hm) - 0)
          rw [unpack_pack_of_isDouble hx, sub_zero]
          exact ⟨rfl, (roundRank_rank hx rfl).symm⟩
      | finite t n f hn =>
          have he := hx.1.le
          have hf := hy.1.le
          have hsum : (s.apply ((decreaseExponent m e (min e f)).1 : Int) -
              t.apply ((decreaseExponent n f (min e f)).1 : Int)) * 2 ^ (min e f + 1074).toNat =
              rank (.finite s m e hm) - rank (.finite t n f hn) := by
            rw [Int.sub_mul, apply_decreaseExponent s (by omega) (by omega),
              apply_decreaseExponent t (by omega) (by omega)]
            rfl
          rw [← hsum]
          exact rank_normalize _ (by omega)

theorem exists_eq_infinity {x : UnpackedFloat} (hn : x.isNaN = false) (hf : x.isFinite = false) :
    ∃ s, x = .infinity s := by
  cases x with
  | infinity s => exact ⟨s, rfl⟩
  | notANumber => cases hn
  | zero s => cases hf
  | finite s m e hm => cases hf

theorem infinity_sub (s : Sign) {y : UnpackedFloat} (hy : y.isFinite = true) :
    UnpackedFloat.sub .binary64 (.infinity s) y = .infinity s := by
  cases y with
  | notANumber => cases hy
  | infinity t => cases hy
  | zero t => rfl
  | finite t n f hn => rfl

theorem sub_infinity {x : UnpackedFloat} (hx : x.isFinite = true) (t : Sign) :
    UnpackedFloat.sub .binary64 x (.infinity t) = .infinity (-t) := by
  cases x with
  | notANumber => cases hx
  | infinity s => cases hx
  | zero s => rfl
  | finite s m e hm => rfl

theorem isDifference_sub {x y : UnpackedFloat} (hx : IsDouble x) (hy : IsDouble y)
    (hxn : x.isNaN = false) (hyn : y.isNaN = false) :
    IsDifference (rank x) (rank y) (pack (UnpackedFloat.sub .binary64 x y)).unpack := by
  have hpos := infinityUnits_pos
  have hneg : -(infinityUnits : Int) < infinityUnits := by omega
  cases hxf : x.isFinite <;> cases hyf : y.isFinite
  · obtain ⟨s, rfl⟩ := exists_eq_infinity hxn hxf
    obtain ⟨t, rfl⟩ := exists_eq_infinity hyn hyf
    cases s <;> cases t
    · exact .notANumber rfl (Or.inr rfl)
    · exact .negInf (Or.inl ⟨rfl, hneg⟩)
    · exact .posInf (Or.inl ⟨rfl, hneg⟩)
    · exact .notANumber rfl (Or.inl rfl)
  · obtain ⟨s, rfl⟩ := exists_eq_infinity hxn hxf
    have hyb := rank_finite_bounds hy hyf
    rw [infinity_sub s hyf, unpack_pack_infinity]
    cases s
    · exact .negInf (Or.inl ⟨rfl, hyb.1⟩)
    · exact .posInf (Or.inl ⟨rfl, hyb.2⟩)
  · obtain ⟨t, rfl⟩ := exists_eq_infinity hyn hyf
    have hxb := rank_finite_bounds hx hxf
    rw [sub_infinity hxf t, unpack_pack_infinity]
    cases t
    · exact .posInf (Or.inr ⟨hxb.1, rfl⟩)
    · exact .negInf (Or.inr ⟨hxb.2, rfl⟩)
  · obtain ⟨hnan, hrank⟩ := rank_sub_of_isFinite hx hy hxf hyf
    exact .rounded (rank_finite_bounds hx hxf) (rank_finite_bounds hy hyf) hnan hrank

theorem sub_of_isNaN {x y : UnpackedFloat} (h : x.isNaN = true ∨ y.isNaN = true) :
    (pack (UnpackedFloat.sub .binary64 x y)).unpack.isNaN = true := by
  have hsub : UnpackedFloat.sub .binary64 x y = .notANumber := by
    cases x <;> cases y <;> simp_all [UnpackedFloat.isNaN, UnpackedFloat.sub]
  rw [hsub]
  rfl

/-- Two ranks have a difference unless both are the same infinity. -/
theorem IsDifference.isNaN_iff {p q : Int} {z : UnpackedFloat} (h : IsDifference p q z) :
    z.isNaN = true ↔ p = q ∧ (p = infinityUnits ∨ p = -infinityUnits) := by
  cases h with
  | notANumber heq hinf => exact iff_of_true rfl ⟨heq, hinf⟩
  | posInf h => exact iff_of_false (by decide) (by omega)
  | negInf h => exact iff_of_false (by decide) (by omega)
  | rounded hp hq hnan hrank => exact iff_of_false (by simp [hnan]) (by omega)

/-- The rank of a difference grows with the first part and falls with the second one. -/
theorem IsDifference.rank_le_rank {p p' q q' : Int} {z z' : UnpackedFloat}
    (h : IsDifference p q z) (h' : IsDifference p' q' z') (hz : IsDouble z) (hz' : IsDouble z')
    (hp' : p' ≤ infinityUnits) (hpp' : p ≤ p') (hqq' : q' ≤ q)
    (hn : z.isNaN = false) (hn' : z'.isNaN = false) : rank z ≤ rank z' := by
  have hhigh := (rank_bounds hz).2
  have hlow := (rank_bounds hz').1
  cases h with
  | notANumber heq hinf => cases hn
  | negInf h => exact hlow
  | posInf h =>
      cases h' with
      | notANumber heq hinf => cases hn'
      | posInf h' => exact le_refl _
      | negInf h' => omega
      | rounded hp hq hnan hrank => omega
  | rounded hp hq hnan hrank =>
      cases h' with
      | notANumber heq hinf => cases hn'
      | posInf h' => exact hhigh
      | negInf h' => omega
      | rounded hp' hq' hnan' hrank' =>
          rw [hrank, hrank']
          exact roundRank_mono (by omega)

theorem IsDifference.rank_nonneg {p q : Int} {z : UnpackedFloat} (h : IsDifference p q z)
    (hqp : q ≤ p) (hz : -(infinityUnits : Int) < rank z) : 0 ≤ rank z := by
  cases h with
  | notANumber heq hinf => exact le_refl _
  | posInf h => exact Int.natCast_nonneg _
  | negInf h => exact absurd hz (lt_irrefl _)
  | rounded hp hq hnan hrank =>
      rw [hrank, ← roundRank_zero]
      exact roundRank_mono (by omega)

theorem IsDifference.lt_rank {p q : Int} {z : UnpackedFloat} (h : IsDifference p q z)
    (hqp : q < p) (hq : -infinityUnits ≤ q) :
    -(infinityUnits : Int) < rank z := by
  have hpos := infinityUnits_pos
  cases h with
  | notANumber heq hinf => omega
  | posInf h => exact show -(infinityUnits : Int) < infinityUnits by omega
  | negInf h => omega
  | rounded hp hq hnan hrank =>
      have hnonneg : roundRank 0 ≤ roundRank (p - q) := roundRank_mono (by omega)
      rw [roundRank_zero] at hnonneg
      omega

/-! ### Doubles as times -/

theorem isNumber_iff {a : Float} : IsNumber a ↔ a.toModel.unpack.isNaN = false :=
  le_iff.trans ⟨And.left, fun ha => ⟨ha, ha, le_refl _⟩⟩

theorem isDifference {a b : Float} (ha : IsNumber a) (hb : IsNumber b) :
    IsDifference (rank a.toModel.unpack) (rank b.toModel.unpack) (a - b).toModel.unpack :=
  isDifference_sub (isDouble_unpack _) (isDouble_unpack _) (isNumber_iff.mp ha) (isNumber_iff.mp hb)

theorem isNumber_of_sub {a b : Float} (h : IsNumber (a - b)) : IsNumber a ∧ IsNumber b := by
  have hnan := isNumber_iff.mp h
  constructor
  · refine isNumber_iff.mpr (Bool.eq_false_iff.mpr fun ha => ?_)
    exact Bool.false_ne_true (hnan.symm.trans (sub_of_isNaN (Or.inl ha)))
  · refine isNumber_iff.mpr (Bool.eq_false_iff.mpr fun hb => ?_)
    exact Bool.false_ne_true (hnan.symm.trans (sub_of_isNaN (Or.inr hb)))

theorem isNumber_sub_iff {a b : Float} (ha : IsNumber a) (hb : IsNumber b) :
    IsNumber (a - b) ↔ ¬ (rank a.toModel.unpack = rank b.toModel.unpack ∧
      (rank a.toModel.unpack = infinityUnits ∨ rank a.toModel.unpack = -infinityUnits)) := by
  rw [isNumber_iff, ← Bool.not_eq_true, (isDifference ha hb).isNaN_iff]

theorem lt_rank_of_negInf_lt {a : Float} (ha : negInf < a) :
    -(infinityUnits : Int) < rank a.toModel.unpack :=
  (lt_iff.mp ha).2.2

instance : LawfulDifferences Float where
  isNumber_of_sub := isNumber_of_sub
  isNumber_sub_of_le {a b c} ha hab h := by
    obtain ⟨hb, hc⟩ := isNumber_of_sub h
    have hnot := (isNumber_sub_iff hb hc).mp h
    have hlow := lt_rank_of_negInf_lt ha
    have hle := (le_iff.mp hab).2.2
    have hhigh := (rank_bounds (isDouble_unpack b.toModel)).2
    refine (isNumber_sub_iff (LawfulMediaTime.isNumber_of_le hab).1 hc).mpr ?_
    omega
  isNumber_sub_of_ge {a b c} ha hab h := by
    obtain ⟨hc, hb⟩ := isNumber_of_sub h
    have hnot := (isNumber_sub_iff hc hb).mp h
    have hlow := lt_rank_of_negInf_lt ha
    have hle := (le_iff.mp hab).2.2
    have hhigh := (rank_bounds (isDouble_unpack b.toModel)).2
    refine (isNumber_sub_iff hc (LawfulMediaTime.isNumber_of_le hab).1).mpr ?_
    omega
  sub_le_sub {a b c d} hab hdc hac hbd := by
    obtain ⟨ha, hc⟩ := isNumber_of_sub hac
    obtain ⟨hb, hd⟩ := isNumber_of_sub hbd
    refine le_iff.mpr ⟨isNumber_iff.mp hac, isNumber_iff.mp hbd, ?_⟩
    exact (isDifference ha hc).rank_le_rank (isDifference hb hd) (isDouble_unpack _)
      (isDouble_unpack _) (rank_bounds (isDouble_unpack _)).2
      (le_iff.mp hab).2.2 (le_iff.mp hdc).2.2 (isNumber_iff.mp hac) (isNumber_iff.mp hbd)
  negInf_lt_sub {a b} hba := by
    obtain ⟨hb, ha⟩ := LawfulMediaTime.isNumber_of_le (le_of_lt hba)
    have hlt := (lt_iff.mp hba).2.2
    have hlow := (rank_bounds (isDouble_unpack b.toModel)).1
    have hnumber : IsNumber (a - b) := (isNumber_sub_iff ha hb).mpr (by omega)
    exact lt_iff.mpr ⟨rfl, isNumber_iff.mp hnumber, (isDifference ha hb).lt_rank hlt hlow⟩
  sub_nonneg {a b} hba hlow := by
    obtain ⟨hb, ha⟩ := LawfulMediaTime.isNumber_of_le hba
    obtain ⟨-, hnan, hrank⟩ := lt_iff.mp hlow
    exact le_iff.mpr ⟨rfl, hnan, (isDifference ha hb).rank_nonneg (le_iff.mp hba).2.2 hrank⟩

end Double

end MediaPipeline
