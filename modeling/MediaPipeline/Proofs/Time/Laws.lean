import Mathlib.Tactic.Common
import MediaPipeline.TimeRange

/-!
# Laws of media times

What the buffers and workers rely on when they compare times. The laws hold of doubles, where sums
are rounded and a value that is not a number is comparable with nothing, and of exact numbers.
-/

namespace MediaPipeline

/-- A time that can be compared, with itself and then with every other such time. -/
def MediaTime.IsNumber {T : Type} [MediaTime T] (t : T) : Prop := t ≤ t

open MediaTime

class LawfulMediaTime (T : Type) [MediaTime T] : Prop where
  le_trans {a b c : T} : a ≤ b → b ≤ c → a ≤ c
  isNumber_of_le {a b : T} : a ≤ b → IsNumber a ∧ IsNumber b
  le_total {a b : T} : IsNumber a → IsNumber b → a ≤ b ∨ b ≤ a
  lt_iff {a b : T} : a < b ↔ a ≤ b ∧ ¬ b ≤ a
  beq_iff {a b : T} : (a == b) = true ↔ a ≤ b ∧ b ≤ a
  negInf_le {a : T} : IsNumber a → negInf ≤ a
  le_posInf {a : T} : IsNumber a → a ≤ posInf
  /-- Rounding never takes a sum below its first part when the second is not negative. -/
  le_add {a d : T} : IsNumber a → isFinite d = true → 0 ≤ d → a ≤ a + d
  isFinite_maxGap : isFinite (maxGap : T) = true
  maxGap_nonneg : (0 : T) ≤ maxGap

namespace MediaTime

open LawfulMediaTime

variable {T : Type} [MediaTime T] [LawfulMediaTime T] {a b c : T}

/-! ## Order -/

theorem le_of_lt (h : a < b) : a ≤ b := (lt_iff.mp h).1

theorem not_le_of_lt (h : a < b) : ¬ b ≤ a := (lt_iff.mp h).2

theorem lt_of_not_le (ha : IsNumber a) (hb : IsNumber b) (h : ¬ b ≤ a) : a < b := by
  rcases le_total ha hb with hle | hle
  · exact lt_iff.mpr ⟨hle, h⟩
  · exact absurd hle h

theorem le_of_not_lt (ha : IsNumber a) (hb : IsNumber b) (h : ¬ a < b) : b ≤ a := by
  rcases le_total hb ha with hle | hle
  · exact hle
  · by_contra hnot
    exact h (lt_iff.mpr ⟨hle, hnot⟩)

theorem lt_of_lt_of_le (hab : a < b) (hbc : b ≤ c) : a < c :=
  lt_iff.mpr ⟨le_trans (le_of_lt hab) hbc, fun hca => not_le_of_lt hab (le_trans hbc hca)⟩

theorem lt_of_le_of_lt (hab : a ≤ b) (hbc : b < c) : a < c :=
  lt_iff.mpr ⟨le_trans hab (le_of_lt hbc), fun hca => not_le_of_lt hbc (le_trans hca hab)⟩

theorem lt_trans (hab : a < b) (hbc : b < c) : a < c := lt_of_lt_of_le hab (le_of_lt hbc)

theorem not_lt_of_lt (h : a < b) : ¬ b < a := fun hba => not_le_of_lt h (le_of_lt hba)

theorem isNaN_eq_false_iff : isNaN a = false ↔ IsNumber a := by
  simp [isNaN, IsNumber, beq_iff]

theorem isNumber_of_isFinite (h : isFinite a = true) : IsNumber a := by
  simp only [isFinite, Bool.and_eq_true, decide_eq_true_eq] at h
  exact (isNumber_of_le (le_of_lt h.1)).2

/-! ## Lesser and greater -/

theorem earlier_le (ha : IsNumber a) (hb : IsNumber b) :
    earlier a b ≤ a ∧ earlier a b ≤ b := by
  unfold earlier
  split_ifs with hle hnan
  · exact ⟨ha, hle⟩
  · rw [isNaN_eq_false_iff.mpr hb] at hnan
    exact absurd hnan (by decide)
  · exact ⟨(le_total ha hb).resolve_left hle, hb⟩

theorem le_later (ha : IsNumber a) (hb : IsNumber b) : a ≤ later a b ∧ b ≤ later a b := by
  unfold later
  split_ifs with hle hnan
  · exact ⟨ha, hle⟩
  · rw [isNaN_eq_false_iff.mpr hb] at hnan
    exact absurd hnan (by decide)
  · exact ⟨(le_total hb ha).resolve_left hle, hb⟩

omit [LawfulMediaTime T] in
theorem earlier_eq_or (a b : T) : earlier a b = a ∨ earlier a b = b := by
  unfold earlier
  split_ifs <;> simp

omit [LawfulMediaTime T] in
theorem later_eq_or (a b : T) : later a b = a ∨ later a b = b := by
  unfold later
  split_ifs <;> simp

omit [LawfulMediaTime T] in
theorem later_le (ha : a ≤ c) (hb : b ≤ c) : later a b ≤ c := by
  rcases later_eq_or a b with heq | heq <;> rw [heq] <;> assumption

theorem later_le_iff (ha : IsNumber a) (hb : IsNumber b) : later a b ≤ c ↔ a ≤ c ∧ b ≤ c := by
  obtain ⟨hla, hlb⟩ := le_later ha hb
  exact ⟨fun hc => ⟨le_trans hla hc, le_trans hlb hc⟩, fun hc => later_le hc.1 hc.2⟩

theorem lt_earlier_iff (ha : IsNumber a) (hb : IsNumber b) : c < earlier a b ↔ c < a ∧ c < b := by
  obtain ⟨hea, heb⟩ := earlier_le ha hb
  constructor
  · intro hc
    exact ⟨lt_of_lt_of_le hc hea, lt_of_lt_of_le hc heb⟩
  · rintro ⟨hca, hcb⟩
    rcases earlier_eq_or a b with heq | heq <;> rw [heq] <;> assumption

theorem foldl_earlier_le {α : Type} {xs : List α} {g : α → T} {t : T} (ht : IsNumber t)
    (hxs : ∀ x ∈ xs, IsNumber (g x)) :
    xs.foldl (fun t x => earlier t (g x)) t ≤ t ∧
      ∀ x ∈ xs, xs.foldl (fun t x => earlier t (g x)) t ≤ g x := by
  induction xs generalizing t with
  | nil => exact ⟨ht, by simp⟩
  | cons a xs ih =>
      obtain ⟨ha, hlater⟩ := List.forall_mem_cons.mp hxs
      obtain ⟨hle, hlea⟩ := earlier_le ht ha
      obtain ⟨hbest, hall⟩ := ih (isNumber_of_le hle).1 hlater
      exact ⟨le_trans hbest hle, List.forall_mem_cons.mpr ⟨le_trans hbest hlea, hall⟩⟩

omit [LawfulMediaTime T] in
theorem foldl_earlier_eq_or {α : Type} (xs : List α) (g : α → T) (t : T) :
    xs.foldl (fun t x => earlier t (g x)) t = t ∨
      ∃ x ∈ xs, xs.foldl (fun t x => earlier t (g x)) t = g x := by
  induction xs generalizing t with
  | nil => exact Or.inl rfl
  | cons a xs ih =>
      rcases ih (earlier t (g a)) with hfold | ⟨x, hx, hfold⟩
      · rcases earlier_eq_or t (g a) with heq | heq
        · exact Or.inl (hfold.trans heq)
        · exact Or.inr ⟨a, List.mem_cons_self, hfold.trans heq⟩
      · exact Or.inr ⟨x, List.mem_cons_of_mem a hx, hfold⟩

omit [LawfulMediaTime T] in
theorem foldl_later_eq_or {α : Type} (xs : List α) (g : α → T) (t : T) :
    xs.foldl (fun t x => later t (g x)) t = t ∨
      ∃ x ∈ xs, xs.foldl (fun t x => later t (g x)) t = g x := by
  induction xs generalizing t with
  | nil => exact Or.inl rfl
  | cons a xs ih =>
      rcases ih (later t (g a)) with hfold | ⟨x, hx, hfold⟩
      · rcases later_eq_or t (g a) with heq | heq
        · exact Or.inl (hfold.trans heq)
        · exact Or.inr ⟨a, List.mem_cons_self, hfold.trans heq⟩
      · exact Or.inr ⟨x, List.mem_cons_of_mem a hx, hfold⟩

theorem le_foldl_later {α : Type} {xs : List α} {g : α → T} {t : T} (ht : IsNumber t)
    (hxs : ∀ x ∈ xs, IsNumber (g x)) :
    t ≤ xs.foldl (fun t x => later t (g x)) t ∧
      ∀ x ∈ xs, g x ≤ xs.foldl (fun t x => later t (g x)) t := by
  induction xs generalizing t with
  | nil => exact ⟨ht, by simp⟩
  | cons a xs ih =>
      obtain ⟨ha, hlater⟩ := List.forall_mem_cons.mp hxs
      obtain ⟨hle, hlea⟩ := le_later ht ha
      obtain ⟨hbest, hall⟩ := ih (isNumber_of_le hle).2 hlater
      exact ⟨le_trans hle hbest, List.forall_mem_cons.mpr ⟨le_trans hlea hbest, hall⟩⟩

end MediaTime

end MediaPipeline
