import Mathlib.Data.List.Basic
import Mathlib.Data.List.Pairwise
import MediaPipeline.FrameBuffer.Run
import MediaPipeline.Proofs.Time.Laws

/-!
# Searching and updating an ascending list of frames

A list whose sort keys increase strictly is a finite map from keys to frames. The search from
either end finds the border between the keys below a time and the others, so that inserting a
frame is an update of the map. Nothing here depends on the gap tolerance.
-/

namespace MediaPipeline

open MediaTime LawfulMediaTime

variable {F T : Type} [Frame F T] [MediaTime T]

/-- A frame whose timestamps are finite and whose duration is finite and not negative. -/
structure Frame.IsTimed (f : F) : Prop where
  pts : isFinite (Frame.pts f) = true
  dts : isFinite (Frame.dts f) = true
  duration : isFinite (Frame.duration f) = true
  duration_nonneg : 0 ≤ Frame.duration f

/-- What a buffer needs of a frame to sort it: a finite key, and an end that is not before it. The
other timestamp does not matter, and the frame may last for ever. -/
structure FrameOrder.IsKeyed (order : FrameOrder) (f : F) : Prop where
  key : isFinite (order.key f) = true
  key_le_end : order.key f ≤ order.key f + Frame.duration f

theorem Frame.IsTimed.isKeyed [LawfulMediaTime T] {f : F} (hf : Frame.IsTimed f)
    (order : FrameOrder) : order.IsKeyed f := by
  have hkey : isFinite (order.key f) = true := by
    cases order with
    | pts => exact hf.pts
    | dts => exact hf.dts
  exact ⟨hkey, le_add (isNumber_of_isFinite hkey) hf.duration hf.duration_nonneg⟩

namespace FrameOrder

variable {order : FrameOrder} {f : F} {fs below rest : List F} {t : T}

/-- The sort keys can be compared, and increase strictly. -/
structure Ascending (order : FrameOrder) (fs : List F) : Prop where
  isNumber : ∀ f ∈ fs, IsNumber (order.key f)
  pairwise : fs.Pairwise fun f g => order.key f < order.key g

/-- The frames with another key than `f`, in their order, and `f` between them. -/
def update (order : FrameOrder) (f : F) (fs : List F) : List F :=
  fs.filter (fun g => decide (order.key g < order.key f)) ++
    f :: fs.filter (fun g => decide (order.key f < order.key g))

/-! ## Keys and ends -/

section Timed

variable [LawfulMediaTime T]

theorem IsKeyed.isNumber (hf : order.IsKeyed f) : IsNumber (order.key f) :=
  isNumber_of_isFinite hf.key

theorem isNumber_key (hf : Frame.IsTimed f) : IsNumber (order.key f) := (hf.isKeyed order).isNumber

theorem key_le_reach (hf : order.IsKeyed f) :
    order.key f ≤ order.key f + Frame.duration f + maxGap := by
  have hend := (isNumber_of_le hf.key_le_end).2
  exact le_trans hf.key_le_end (le_add hend isFinite_maxGap maxGap_nonneg)

theorem lt_of_not_reaches {a b : F} (ha : order.IsKeyed a) (hb : order.IsKeyed b)
    (hab : order.reaches a b = false) : order.key a < order.key b := by
  have hreach : order.key a ≤ order.key a + Frame.duration a + maxGap := key_le_reach ha
  have hnot := of_decide_eq_false hab
  exact lt_of_le_of_lt hreach (lt_of_not_le (isNumber_of_le hreach).2 hb.isNumber hnot)

end Timed

/-! ## The border -/

theorem Ascending.tail (hfs : order.Ascending (f :: fs)) : order.Ascending fs where
  isNumber g hg := hfs.isNumber g (List.mem_cons_of_mem f hg)
  pairwise := (List.pairwise_cons.mp hfs.pairwise).2

theorem Ascending.of_sublist {gs : List F} (hfs : order.Ascending fs) (hgs : gs.Sublist fs) :
    order.Ascending gs where
  isNumber g hg := hfs.isNumber g (hgs.subset hg)
  pairwise := hfs.pairwise.sublist hgs

theorem Ascending.forall_lt [LawfulMediaTime T] (hfs : order.Ascending (f :: fs))
    (ht : t < order.key f) : ∀ g ∈ f :: fs, t < order.key g := by
  intro g hg
  rcases List.mem_cons.mp hg with rfl | hg
  · exact ht
  · exact lt_trans ht (List.rel_of_pairwise_cons hfs.pairwise hg)

theorem Ascending.forall_lt_of_getLast? [LawfulMediaTime T] (hfs : order.Ascending fs)
    (hlast : f ∈ fs.getLast?) (ht : order.key f < t) : ∀ g ∈ fs, order.key g < t := by
  obtain ⟨gs, rfl⟩ := List.getLast?_eq_some_iff.mp hlast
  intro g hg
  rcases List.mem_append.mp hg with hg | hg
  · exact lt_trans ((List.pairwise_append.mp hfs.pairwise).2.2 g hg f List.mem_cons_self) ht
  · rwa [List.mem_singleton.mp hg]

section Filter

variable [LawfulMediaTime T]

theorem filter_of_forall_lt (hfs : ∀ g ∈ fs, order.key g < t) :
    fs.filter (fun g => decide (order.key g < t)) = fs ∧
      fs.filter (fun g => decide (t < order.key g)) = [] := by
  refine ⟨List.filter_eq_self.mpr fun g hg => decide_eq_true (hfs g hg), ?_⟩
  refine List.filter_eq_nil_iff.mpr fun g hg => ?_
  simpa using fun htg => not_le_of_lt htg (le_of_lt (hfs g hg))

theorem filter_of_lt_forall (hfs : ∀ g ∈ fs, t < order.key g) :
    fs.filter (fun g => decide (order.key g < t)) = [] ∧
      fs.filter (fun g => decide (t < order.key g)) = fs := by
  refine ⟨?_, List.filter_eq_self.mpr fun g hg => decide_eq_true (hfs g hg)⟩
  refine List.filter_eq_nil_iff.mpr fun g hg => ?_
  simpa using fun hgt => not_le_of_lt hgt (le_of_lt (hfs g hg))

theorem update_append_of_forall_lt {gs : List F} (hfs : ∀ g ∈ fs, order.key g < order.key f) :
    order.update f (fs ++ gs) = fs ++ order.update f gs := by
  obtain ⟨hbelow, habove⟩ := filter_of_forall_lt hfs
  simp only [update, List.filter_append, hbelow, habove, List.nil_append, List.append_assoc]

theorem update_append_of_lt_forall {gs : List F} (hgs : ∀ g ∈ gs, order.key f < order.key g) :
    order.update f (fs ++ gs) = order.update f fs ++ gs := by
  obtain ⟨hbelow, habove⟩ := filter_of_lt_forall hgs
  simp only [update, List.filter_append, hbelow, habove, List.append_nil, List.append_assoc,
    List.cons_append]

theorem update_of_forall_lt (hfs : ∀ g ∈ fs, order.key f < order.key g) :
    order.update f fs = f :: fs := by
  calc
    order.update f fs = order.update f ([] ++ fs) := rfl
    _ = order.update f [] ++ fs := update_append_of_lt_forall hfs
    _ = f :: fs := rfl

theorem Ascending.filter_append_filter (hfs : order.Ascending fs)
    (ht : IsNumber t) :
    fs.filter (fun g => decide (order.key g < t)) ++
      fs.filter (fun g => decide (t ≤ order.key g)) = fs := by
  induction fs with
  | nil => rfl
  | cons a fs ih =>
      by_cases hat : order.key a < t
      · have hta : ¬ t ≤ order.key a := not_le_of_lt hat
        simp [hat, hta, ih hfs.tail]
      · have hta : t ≤ order.key a :=
          le_of_not_lt (hfs.isNumber a List.mem_cons_self) ht hat
        have hlater : ∀ g ∈ fs, t < order.key g := fun g hg =>
          lt_of_le_of_lt hta (List.rel_of_pairwise_cons hfs.pairwise hg)
        have hnone := (filter_of_lt_forall hlater).1
        have hall : fs.filter (fun g => decide (t ≤ order.key g)) = fs :=
          List.filter_eq_self.mpr fun g hg => decide_eq_true (le_of_lt (hlater g hg))
        simp [hat, hta, hnone, hall]

end Filter

/-- `below` holds the keys less than `t`, and `rest` the others. -/
structure Border (order : FrameOrder) (t : T) (below rest : List F) : Prop where
  below : ∀ g ∈ below, order.key g < t
  rest : ∀ g ∈ rest, t ≤ order.key g

section Search

variable [LawfulMediaTime T]

theorem Border.firstFrom (hborder : order.Border t below rest) :
    order.firstFrom (below ++ rest) t = below.length := by
  have hbelow : below.findIdx (fun g => decide (t ≤ order.key g)) = below.length :=
    List.findIdx_eq_length.mpr fun g hg =>
      decide_eq_false (not_le_of_lt (hborder.below g hg))
  have hrest : rest.findIdx (fun g => decide (t ≤ order.key g)) = 0 := by
    cases rest with
    | nil => rfl
    | cons g rest => simp [List.findIdx_cons, hborder.rest g List.mem_cons_self]
  rw [FrameOrder.firstFrom, List.findIdx_append, hbelow, hrest]
  simp

theorem Border.pastLastBefore (hborder : order.Border t below rest) :
    order.pastLastBefore (below ++ rest) t = below.length := by
  have hrest : rest.reverse.findIdx (fun g => decide (order.key g < t)) = rest.length := by
    rw [← List.length_reverse]
    refine List.findIdx_eq_length.mpr fun g hg => decide_eq_false fun hgt => ?_
    exact not_le_of_lt hgt (hborder.rest g (List.mem_reverse.mp hg))
  have hbelow : below.reverse.findIdx (fun g => decide (order.key g < t)) = 0 := by
    cases hrev : below.reverse with
    | nil => rfl
    | cons g gs =>
        have hg : g ∈ below := List.mem_reverse.mp (hrev ▸ List.mem_cons_self)
        simp [List.findIdx_cons, hborder.below g hg]
  rw [FrameOrder.pastLastBefore, List.reverse_append, List.findIdx_append, hrest, hbelow]
  simp

/-- Both directions of the search end at the border, so the choice between them is free. -/
theorem Border.lowerBound (hborder : order.Border t below rest) :
    order.lowerBound (below ++ rest) t = below.length := by
  unfold FrameOrder.lowerBound
  split
  · split_ifs
    · exact hborder.firstFrom
    · exact hborder.pastLastBefore
  · next hends =>
    cases hall : below ++ rest with
    | nil => simp [List.append_eq_nil_iff.mp hall]
    | cons g gs =>
        rw [hall] at hends
        exact (hends g _ List.head?_cons (List.getLast?_eq_some_getLast (by simp))).elim

/-! ## Insertion -/

theorem insertIdx_length_append (xs ys : List F) (f : F) :
    (xs ++ ys).insertIdx xs.length f = xs ++ f :: ys := by
  induction xs with
  | nil => rfl
  | cons x xs ih => simp [ih]

/-- Inserting at the border replaces the first frame behind it exactly if that has the key. -/
theorem Border.insertFrame (hborder : order.Border (order.key f) below rest) :
    Run.insertFrame order (below ++ rest) f =
      if rest.head?.any (fun g => order.key g == order.key f) then below ++ f :: rest.tail
      else below ++ f :: rest := by
  simp only [Run.insertFrame, hborder.lowerBound]
  cases rest with
  | nil => simp
  | cons g rest =>
      by_cases hkey : order.key g == order.key f
      · simp [hkey]
      · simp [hkey, insertIdx_length_append]

/-- Insertion into an ascending list is the update of a map. -/
theorem Ascending.insertFrame_eq (hfs : order.Ascending fs) (hf : IsNumber (order.key f)) :
    Run.insertFrame order fs f = order.update f fs := by
  have hsplit := hfs.filter_append_filter hf
  have hupper : order.Ascending (fs.filter fun g => decide (order.key f ≤ order.key g)) :=
    hfs.of_sublist List.filter_sublist
  have hborder : order.Border (order.key f)
      (fs.filter fun g => decide (order.key g < order.key f))
      (fs.filter fun g => decide (order.key f ≤ order.key g)) :=
    ⟨fun g hg => by simpa using (List.mem_filter.mp hg).2,
      fun g hg => by simpa using (List.mem_filter.mp hg).2⟩
  have hlt_le : fs.filter (fun g => decide (order.key f < order.key g)) =
      (fs.filter fun g => decide (order.key f ≤ order.key g)).filter
        (fun g => decide (order.key f < order.key g)) := by
    rw [List.filter_filter]
    refine List.filter_congr fun g _ => ?_
    by_cases hlt : order.key f < order.key g
    · simp [hlt, le_of_lt hlt]
    · simp [hlt]
  conv_lhs => rw [← hsplit]
  rw [hborder.insertFrame, update, hlt_le]
  generalize hrest : fs.filter (fun g => decide (order.key f ≤ order.key g)) = rest at *
  cases rest with
  | nil => rfl
  | cons g rest =>
      have hfg : order.key f ≤ order.key g := hborder.rest g List.mem_cons_self
      have hlater : ∀ x ∈ rest, order.key f < order.key x := fun x hx =>
        lt_of_le_of_lt hfg (List.rel_of_pairwise_cons hupper.pairwise hx)
      have hall := (filter_of_lt_forall hlater).2
      by_cases hgf : order.key g ≤ order.key f
      · have hnot : ¬ order.key f < order.key g := fun hlt => not_le_of_lt hlt hgf
        simp [beq_iff.mpr ⟨hgf, hfg⟩, hnot, hall]
      · have hlt : order.key f < order.key g := lt_iff.mpr ⟨hfg, hgf⟩
        have hne : (order.key g == order.key f) = false :=
          Bool.eq_false_iff.mpr fun heq => hgf (beq_iff.mp heq).1
        simp [hne, hlt, hall]

omit [LawfulMediaTime T] in
theorem mem_update {g : F} (hg : g ∈ order.update f fs) : g = f ∨ g ∈ fs := by
  rcases List.mem_append.mp hg with hg | hg
  · exact Or.inr (List.mem_filter.mp hg).1
  · rcases List.mem_cons.mp hg with rfl | hg
    · exact Or.inl rfl
    · exact Or.inr (List.mem_filter.mp hg).1

theorem Ascending.update (hfs : order.Ascending fs) (hf : IsNumber (order.key f)) :
    order.Ascending (order.update f fs) where
  isNumber g hg := by
    rcases mem_update hg with rfl | hg
    · exact hf
    · exact hfs.isNumber g hg
  pairwise := by
    have hbelow : ∀ g ∈ fs.filter (fun g => decide (order.key g < order.key f)),
        order.key g < order.key f := fun g hg => by simpa using (List.mem_filter.mp hg).2
    have habove : ∀ g ∈ fs.filter (fun g => decide (order.key f < order.key g)),
        order.key f < order.key g := fun g hg => by simpa using (List.mem_filter.mp hg).2
    refine List.pairwise_append.mpr ⟨hfs.pairwise.filter _, ?_, ?_⟩
    · exact List.pairwise_cons.mpr ⟨habove, hfs.pairwise.filter _⟩
    · intro g hg h hh
      rcases List.mem_cons.mp hh with rfl | hh
      · exact hbelow g hg
      · exact lt_trans (hbelow g hg) (habove h hh)

/-- An update takes out the frames with the key of `f`, and puts `f` in. -/
theorem Ascending.mem_update_iff {g : F} (hfs : order.Ascending fs) (hf : IsNumber (order.key f)) :
    g ∈ order.update f fs ↔ g = f ∨ g ∈ fs ∧ (order.key f == order.key g) = false := by
  constructor
  · intro hg
    rcases List.mem_append.mp hg with hbelow | hg
    · obtain ⟨hmem, hlt⟩ := List.mem_filter.mp hbelow
      refine Or.inr ⟨hmem, Bool.eq_false_iff.mpr fun heq => ?_⟩
      exact not_le_of_lt (of_decide_eq_true hlt) (beq_iff.mp heq).1
    · rcases List.mem_cons.mp hg with hgf | habove
      · exact Or.inl hgf
      · obtain ⟨hmem, hlt⟩ := List.mem_filter.mp habove
        refine Or.inr ⟨hmem, Bool.eq_false_iff.mpr fun heq => ?_⟩
        exact not_le_of_lt (of_decide_eq_true hlt) (beq_iff.mp heq).2
  · rintro (rfl | ⟨hmem, hne⟩)
    · simp [FrameOrder.update]
    · have hother : ¬ (order.key f ≤ order.key g ∧ order.key g ≤ order.key f) := by
        intro heq
        rw [beq_iff.mpr heq] at hne
        exact Bool.noConfusion hne
      by_cases hfg : order.key f ≤ order.key g
      · have hlt : order.key f < order.key g := lt_iff.mpr ⟨hfg, fun hgf => hother ⟨hfg, hgf⟩⟩
        simp [FrameOrder.update, hmem, hlt]
      · have hlt := lt_of_not_le (hfs.isNumber g hmem) hf hfg
        simp [FrameOrder.update, hmem, hlt]

/-! ## Distinct keys -/

/-- One of the keys is less than the other. -/
def Apart (order : FrameOrder) (f g : F) : Prop :=
  order.key f < order.key g ∨ order.key g < order.key f

omit [LawfulMediaTime T] in
instance : Std.Symm (order.Apart : F → F → Prop) := ⟨fun _ _ => Or.symm⟩

theorem Ascending.eq_of_key_le {g : F} (hfs : order.Ascending fs) (hf : f ∈ fs) (hg : g ∈ fs)
    (hfg : order.key f ≤ order.key g) (hgf : order.key g ≤ order.key f) : f = g := by
  have hapart : fs.Pairwise order.Apart := hfs.pairwise.imp Or.inl
  by_contra hne
  rcases hapart.forall hf hg hne with hlt | hlt
  · exact not_le_of_lt hlt hgf
  · exact not_le_of_lt hlt hfg

end Search

end FrameOrder

end MediaPipeline
