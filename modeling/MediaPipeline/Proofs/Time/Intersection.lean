import MediaPipeline.Proofs.Time.Double

/-!
# What several sources have in common

Two lists of spans are swept together, and the span that ends first is left behind, so the sweep
ends when one list does. What it gives is in order again and covers the times that both lists cover.
So the intersection of any number of sources covers the times that all of them cover.
-/

namespace MediaPipeline

open MediaTime LawfulMediaTime

variable {T : Type} [MediaTime T]

namespace TimeRange

/-- `t` lies in one of the spans, which hold their starts but not their ends. -/
def Covers (ranges : List (TimeRange T)) (t : T) : Prop := ∃ r ∈ ranges, r.start ≤ t ∧ t < r.stop

/-- Every span starts before it ends, or where it ends, and ends before the next one starts, or
where it starts. -/
structure IsOrdered (ranges : List (TimeRange T)) : Prop where
  start_le_stop : ∀ r ∈ ranges, r.start ≤ r.stop
  chain : ranges.IsChain fun r s => r.stop ≤ s.start

variable {as bs ranges : List (TimeRange T)} {a b r : TimeRange T} {t : T}

@[simp] theorem not_covers_nil (t : T) : ¬ Covers [] t := by
  simp [Covers]

theorem covers_cons_iff :
    Covers (r :: ranges) t ↔ (r.start ≤ t ∧ t < r.stop) ∨ Covers ranges t := by
  simp [Covers]

theorem covers_append_iff : Covers (as ++ bs) t ↔ Covers as t ∨ Covers bs t := by
  simp [Covers, or_and_right, exists_or]

theorem IsOrdered.tail (h : IsOrdered (r :: ranges)) : IsOrdered ranges where
  start_le_stop s hs := h.start_le_stop s (List.mem_cons_of_mem r hs)
  chain := h.chain.tail

variable [LawfulMediaTime T]

theorem IsOrdered.stop_le_start (h : IsOrdered (r :: ranges)) : ∀ s ∈ ranges, r.stop ≤ s.start := by
  induction ranges generalizing r with
  | nil => simp
  | cons next ranges ih =>
      have hnext : r.stop ≤ next.start := (List.isChain_cons_cons.mp h.chain).1
      have hspan : next.start ≤ next.stop := h.tail.start_le_stop next List.mem_cons_self
      intro s hs
      rcases List.mem_cons.mp hs with rfl | hs
      · exact hnext
      · exact le_trans hnext (le_trans hspan (ih h.tail s hs))

theorem IsOrdered.isNumber (h : IsOrdered ranges) (hr : r ∈ ranges) :
    IsNumber r.start ∧ IsNumber r.stop :=
  isNumber_of_le (h.start_le_stop r hr)

/-- A time in the first span is in no other. -/
theorem IsOrdered.not_covers_tail (h : IsOrdered (r :: ranges)) (ht : t < r.stop) :
    ¬ Covers ranges t := by
  rintro ⟨s, hs, hst, -⟩
  exact not_le_of_lt (lt_of_lt_of_le ht (h.stop_le_start s hs)) hst

/-! ## Two sources -/

/-- What two spans share; it is empty or ends before it starts if they share no time. -/
def overlap (a b : TimeRange T) : TimeRange T := ⟨later a.start b.start, earlier a.stop b.stop⟩

/-- The overlap of two spans, if there is any time in it. -/
def shared (a b : TimeRange T) : List (TimeRange T) :=
  if (overlap a b).start < (overlap a b).stop then [overlap a b] else []

omit [LawfulMediaTime T] in
theorem mem_shared_iff :
    r ∈ shared a b ↔ r = overlap a b ∧ (overlap a b).start < (overlap a b).stop := by
  unfold shared
  split_ifs with hspan <;> simp [hspan]

theorem covers_shared_iff (ha : a.start ≤ a.stop) (hb : b.start ≤ b.stop) :
    Covers (shared a b) t ↔ (a.start ≤ t ∧ t < a.stop) ∧ b.start ≤ t ∧ t < b.stop := by
  obtain ⟨hastart, hastop⟩ := isNumber_of_le ha
  obtain ⟨hbstart, hbstop⟩ := isNumber_of_le hb
  have hoverlap : Covers (shared a b) t ↔ (overlap a b).start ≤ t ∧ t < (overlap a b).stop := by
    unfold shared
    split_ifs with hspan
    · simp [Covers]
    · simp only [not_covers_nil, false_iff, not_and]
      exact fun hstart hstop => hspan (lt_of_le_of_lt hstart hstop)
  rw [hoverlap, overlap, later_le_iff hastart hbstart, lt_earlier_iff hastop hbstop]
  exact and_and_and_comm

omit [LawfulMediaTime T] in
theorem meet_cons_cons (a b : TimeRange T) (as bs : List (TimeRange T)) :
    meet (a :: as) (b :: bs) =
      shared a b ++ if a.stop < b.stop then meet as (b :: bs) else meet (a :: as) bs := by
  rw [meet]
  split_ifs <;> simp_all [shared, overlap]

omit [LawfulMediaTime T] in
theorem exists_of_mem_meet (hr : r ∈ meet as bs) : ∃ a ∈ as, ∃ b ∈ bs, r ∈ shared a b := by
  induction as generalizing bs with
  | nil => simp [meet] at hr
  | cons a as iha =>
      induction bs with
      | nil => simp [meet] at hr
      | cons b bs ihb =>
          rw [meet_cons_cons] at hr
          rcases List.mem_append.mp hr with hr | hr
          · exact ⟨a, List.mem_cons_self, b, List.mem_cons_self, hr⟩
          · split_ifs at hr
            · obtain ⟨c, hc, hrest⟩ := iha hr
              exact ⟨c, List.mem_cons_of_mem a hc, hrest⟩
            · obtain ⟨c, hc, d, hd, hrest⟩ := ihb hr
              exact ⟨c, hc, d, List.mem_cons_of_mem b hd, hrest⟩

/-- The sweep finds just the times that both lists cover. -/
theorem covers_meet_iff (has : IsOrdered as) (hbs : IsOrdered bs) :
    Covers (meet as bs) t ↔ Covers as t ∧ Covers bs t := by
  induction as generalizing bs with
  | nil => simp [meet]
  | cons a as iha =>
      induction bs with
      | nil => simp [meet]
      | cons b bs ihb =>
          have ha := has.start_le_stop a List.mem_cons_self
          have hb := hbs.start_le_stop b List.mem_cons_self
          rw [meet_cons_cons, covers_append_iff, covers_shared_iff ha hb, covers_cons_iff,
            covers_cons_iff]
          split_ifs with hstop
          · -- Nothing behind `b` shares a time with `a`, which is left behind.
            have hlost : (a.start ≤ t ∧ t < a.stop) → ¬ Covers bs t := fun ht =>
              hbs.not_covers_tail (lt_trans ht.2 hstop)
            rw [iha has.tail hbs, covers_cons_iff]
            by_cases hat : a.start ≤ t ∧ t < a.stop
            · simp only [hat, hlost hat, true_and, or_false, true_or]
              exact or_iff_left_of_imp And.right
            · simp only [hat, false_and, false_or]
          · have hle : b.stop ≤ a.stop :=
              le_of_not_lt (isNumber_of_le ha).2 (isNumber_of_le hb).2 hstop
            have hlost : (b.start ≤ t ∧ t < b.stop) → ¬ Covers as t := fun ht =>
              has.not_covers_tail (lt_of_lt_of_le ht.2 hle)
            rw [ihb hbs.tail, covers_cons_iff]
            by_cases hbt : b.start ≤ t ∧ t < b.stop
            · simp only [hbt, hlost hbt, and_true, or_false, true_or]
              exact or_iff_left_of_imp And.left
            · simp only [hbt, and_false, false_or]

/-- What is found later starts where the span that is left behind ends, or after it. -/
theorem stop_le_start_of_mem_rest (has : IsOrdered (a :: as)) (hbs : IsOrdered (b :: bs))
    (hr : r ∈ if a.stop < b.stop then meet as (b :: bs) else meet (a :: as) bs) :
    (overlap a b).stop ≤ r.start := by
  have hstops := earlier_le (has.isNumber List.mem_cons_self).2 (hbs.isNumber List.mem_cons_self).2
  have hstarts : ∀ c ∈ a :: as, ∀ d ∈ b :: bs, r ∈ shared c d → c.start ≤ r.start ∧
      d.start ≤ r.start := by
    intro c hc d hd hr
    rw [(mem_shared_iff.mp hr).1]
    exact le_later (has.isNumber hc).1 (hbs.isNumber hd).1
  split_ifs at hr
  · obtain ⟨c, hc, d, hd, hr⟩ := exists_of_mem_meet hr
    have hstart := (hstarts c (List.mem_cons_of_mem a hc) d hd hr).1
    exact le_trans hstops.1 (le_trans (has.stop_le_start c hc) hstart)
  · obtain ⟨c, hc, d, hd, hr⟩ := exists_of_mem_meet hr
    have hstart := (hstarts c hc d (List.mem_cons_of_mem b hd) hr).2
    exact le_trans hstops.2 (le_trans (hbs.stop_le_start d hd) hstart)

theorem pairwise_meet (has : IsOrdered as) (hbs : IsOrdered bs) :
    (meet as bs).Pairwise fun r s => r.stop ≤ s.start := by
  induction as generalizing bs with
  | nil => simp [meet]
  | cons a as iha =>
      induction bs with
      | nil => simp [meet]
      | cons b bs ihb =>
          rw [meet_cons_cons]
          refine List.pairwise_append.mpr ⟨?_, ?_, fun r hr s hs => ?_⟩
          · unfold shared
            split_ifs <;> simp
          · split_ifs
            · exact iha has.tail hbs
            · exact ihb hbs.tail
          · rw [(mem_shared_iff.mp hr).1]
            exact stop_le_start_of_mem_rest has hbs hs

theorem isOrdered_meet (has : IsOrdered as) (hbs : IsOrdered bs) : IsOrdered (meet as bs) where
  start_le_stop r hr := by
    obtain ⟨a, -, b, -, hr⟩ := exists_of_mem_meet hr
    obtain ⟨rfl, hspan⟩ := mem_shared_iff.mp hr
    exact le_of_lt hspan
  chain := (pairwise_meet has hbs).isChain

/-! ## Any number of sources -/

theorem foldl_meet {sources : List (List (TimeRange T))} (has : IsOrdered as)
    (hsources : ∀ s ∈ sources, IsOrdered s) :
    IsOrdered (sources.foldl meet as) ∧
      ∀ t, Covers (sources.foldl meet as) t ↔ Covers as t ∧ ∀ s ∈ sources, Covers s t := by
  induction sources generalizing as with
  | nil => simpa using has
  | cons bs sources ih =>
      obtain ⟨hbs, hlater⟩ := List.forall_mem_cons.mp hsources
      obtain ⟨hordered, hcovers⟩ := ih (isOrdered_meet has hbs) hlater
      refine ⟨hordered, fun t => (hcovers t).trans ?_⟩
      rw [covers_meet_iff has hbs, List.forall_mem_cons, and_assoc]

theorem covers_intersection_iff {sources : List (List (TimeRange T))}
    (hsources : ∀ s ∈ sources, IsOrdered s) :
    Covers (intersection sources) t ↔ sources ≠ [] ∧ ∀ s ∈ sources, Covers s t := by
  cases sources with
  | nil => simp [intersection]
  | cons first rest =>
      obtain ⟨hfirst, hrest⟩ := List.forall_mem_cons.mp hsources
      rw [intersection, (foldl_meet hfirst hrest).2 t]
      simp

/-- Sources in order have an intersection in order, which covers the times that each of them covers,
whatever the order in which they are taken. -/
theorem intersection_is_common {sources : List (List (TimeRange T))}
    (hsources : ∀ s ∈ sources, IsOrdered s) :
    IsOrdered (intersection sources) ∧
    (∀ t, Covers (intersection sources) t ↔ sources ≠ [] ∧ ∀ s ∈ sources, Covers s t) ∧
    ∀ others, others.Perm sources →
      ∀ t, Covers (intersection others) t ↔ Covers (intersection sources) t := by
  refine ⟨?_, fun t => covers_intersection_iff hsources, fun others hperm t => ?_⟩
  · cases sources with
    | nil => exact ⟨by simp [intersection], by simp [intersection]⟩
    | cons first rest =>
        obtain ⟨hfirst, hrest⟩ := List.forall_mem_cons.mp hsources
        exact (foldl_meet hfirst hrest).1
  · have hothers : ∀ s ∈ others, IsOrdered s := fun s hs => hsources s (hperm.subset hs)
    have hempty : others = [] ↔ sources = [] := by
      rw [← List.length_eq_zero_iff, hperm.length_eq, List.length_eq_zero_iff]
    rw [covers_intersection_iff hothers, covers_intersection_iff hsources, ne_eq, ne_eq, hempty]
    simp only [hperm.mem_iff]

/-- Spans that touch, that lie within another one and that end together, one without end, and one
of no length. -/
def threeSources : List (List (TimeRange Float)) :=
  [[⟨0, 2⟩, ⟨2, 5⟩, ⟨7, posInf⟩], [⟨1, 3⟩, ⟨4, 5⟩, ⟨6, 9⟩, ⟨9, 9⟩], [⟨negInf, 8⟩]]

theorem intersection_is_common_threeSources :
    ((∀ s ∈ threeSources, IsOrdered s) ∧ threeSources.reverse.Perm threeSources) ∧
    intersection threeSources = [⟨1, 2⟩, ⟨2, 3⟩, ⟨4, 5⟩, ⟨7, 8⟩] ∧
    IsOrdered (intersection threeSources) ∧
    (∀ t, Covers (intersection threeSources) t ↔
      threeSources ≠ [] ∧ ∀ s ∈ threeSources, Covers s t) ∧
    ∀ t, Covers (intersection threeSources.reverse) t ↔ Covers (intersection threeSources) t := by
  have hsources : ∀ s ∈ threeSources, IsOrdered s := by
    have hall : ∀ s ∈ threeSources, (∀ r ∈ s, r.start ≤ r.stop) ∧
        s.IsChain fun r s => r.stop ≤ s.start := by decide +kernel
    exact fun s hs => ⟨(hall s hs).1, (hall s hs).2⟩
  have hperm := List.reverse_perm threeSources
  obtain ⟨hordered, hcommon, horder⟩ := intersection_is_common hsources
  exact ⟨⟨hsources, hperm⟩, by decide +kernel, hordered, hcommon, horder _ hperm⟩

end TimeRange

end MediaPipeline
