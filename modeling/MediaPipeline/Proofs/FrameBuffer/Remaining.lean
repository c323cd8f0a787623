import Mathlib.Data.List.TakeWhile
import MediaPipeline.Proofs.FrameBuffer.LatestKeyFrame
import MediaPipeline.Proofs.FrameBuffer.Removing

/-!
# What removal leaves

In a buffer that is sorted by presentation time, removal goes through the frames as if the runs had
no borders: it skips to the first frame in the bounds, and from there on takes away everything up to
the next key frame behind them.
-/

namespace MediaPipeline

open MediaTime LawfulMediaTime

namespace FrameBuffer

section Definitions

variable {F T : Type} [Frame F T] [MediaTime T]

/-- `f` is in the bounds, or it comes after them, something in the bounds goes with it, and there is
no key frame from the end of the bounds up to `f`. -/
def IsRemoved (fs : List F) (start stop : T) (f : F) : Prop :=
  (start ≤ Frame.pts f ∧ Frame.pts f < stop) ∨
    (stop ≤ Frame.pts f ∧ (∃ g ∈ fs, start ≤ Frame.pts g ∧ Frame.pts g < stop) ∧
      ∀ k ∈ fs, Frame.isKeyFrame k = true → stop ≤ Frame.pts k → ¬ Frame.pts k ≤ Frame.pts f)

instance (fs : List F) (start stop : T) (f : F) : Decidable (IsRemoved fs start stop f) := by
  unfold IsRemoved; infer_instance

/-- The frames of one list that are left, in front of the removed ones and after them. -/
def remaining (start stop : T) (removing : Bool) (fs : List F) : List F :=
  (cut start stop removing fs).1 ++ (cut start stop removing fs).2.1

end Definitions

variable {F T : Type} [Frame F T] [MediaTime T] {start stop : T} {removing : Bool}
  {fs gs : List F} {f g : F} {rs : List (Run F T)} {b : FrameBuffer F T}

theorem within_eq_true_iff :
    within start stop f = true ↔ start ≤ Frame.pts f ∧ Frame.pts f < stop := by
  simp [within]

theorem endsRemoval_eq_true_iff :
    endsRemoval stop f = true ↔ stop ≤ Frame.pts f ∧ Frame.isKeyFrame f = true := by
  simp [endsRemoval]

/-- Nothing is in the bounds, or there is a first frame in them. -/
theorem none_or_first_within (start stop : T) (fs : List F) :
    (∀ g ∈ fs, within start stop g = false) ∨
      ∃ before f rest, fs = before ++ f :: rest ∧
        (∀ g ∈ before, within start stop g = false) ∧ within start stop f = true := by
  cases hfind : fs.find? (within start stop) with
  | none => exact Or.inl fun g hg => by simpa using List.find?_eq_none.mp hfind g hg
  | some f =>
      obtain ⟨hf, before, rest, hsplit, hbefore⟩ := List.find?_eq_some_iff_append.mp hfind
      exact Or.inr ⟨before, f, rest, hsplit, fun g hg => by simpa using hbefore g hg, hf⟩

/-! ## One list of frames -/

theorem cut_of_none (hfs : ∀ g ∈ fs, within start stop g = false) :
    cut start stop false fs = (fs, [], false) := by
  have hall : ∀ g ∈ fs, (! within start stop g) = true := fun g hg => by simp [hfs g hg]
  simp [cut, List.takeWhile_eq_self_iff.mpr hall, List.dropWhile_eq_nil_iff.mpr hall]

theorem cut_of_split {before : List F} (hbefore : ∀ g ∈ before, within start stop g = false)
    (hf : within start stop f = true) :
    cut start stop false (before ++ f :: fs) =
      (before, fs.dropWhile (! endsRemoval stop ·),
        (fs.dropWhile (! endsRemoval stop ·)).isEmpty) := by
  have hall : ∀ g ∈ before, (! within start stop g) = true := fun g hg => by simp [hbefore g hg]
  simp [cut, List.takeWhile_append_of_pos hall, List.dropWhile_append_of_pos hall, hf]

theorem remaining_of_none (hfs : ∀ g ∈ fs, within start stop g = false) :
    remaining start stop false fs = fs := by
  simp [remaining, cut_of_none hfs]

theorem remaining_of_split {before : List F} (hbefore : ∀ g ∈ before, within start stop g = false)
    (hf : within start stop f = true) :
    remaining start stop false (before ++ f :: fs) =
      before ++ fs.dropWhile (! endsRemoval stop ·) := by
  simp [remaining, cut_of_split hbefore hf]

/-! ## Removal across the borders of runs -/

section Borders

variable [LawfulMediaTime T]

/-- What the end of a removal leaves of two lists in a row. It goes on in the second if it has not
ended in the first; the second has nothing in the bounds if it has. -/
theorem dropWhile_append_eq_remaining
    (hsorted : (fs ++ gs).Pairwise fun f g => Frame.pts f < Frame.pts g) :
    (fs ++ gs).dropWhile (! endsRemoval stop ·) =
      fs.dropWhile (! endsRemoval stop ·) ++
        remaining start stop (fs.dropWhile (! endsRemoval stop ·)).isEmpty gs := by
  rw [List.dropWhile_append]
  cases hrest : fs.dropWhile (! endsRemoval stop ·) with
  | nil => rfl
  | cons k ks =>
      have hk : endsRemoval stop k = true := by
        have hhead := List.head?_dropWhile_not (! endsRemoval stop ·) fs
        simpa [hrest] using hhead
      have hmem : k ∈ fs := (List.dropWhile_sublist _).subset (hrest ▸ List.mem_cons_self)
      have hgs : ∀ g ∈ gs, within start stop g = false := by
        intro g hg
        have hlt := (List.pairwise_append.mp hsorted).2.2 k hmem g hg
        have hle := le_trans (endsRemoval_eq_true_iff.mp hk).1 (le_of_lt hlt)
        rw [← Bool.not_eq_true, within_eq_true_iff]
        exact fun hwithin => not_le_of_lt hwithin.2 hle
      simp [remaining_of_none hgs]

theorem remaining_append (hsorted : (fs ++ gs).Pairwise fun f g => Frame.pts f < Frame.pts g) :
    remaining start stop removing (fs ++ gs) =
      remaining start stop removing fs ++
        remaining start stop (cut start stop removing fs).2.2 gs := by
  cases removing with
  | true => exact dropWhile_append_eq_remaining hsorted
  | false =>
      rcases none_or_first_within start stop fs with hfs | ⟨before, f, rest, rfl, hbefore, hf⟩
      · rw [remaining_of_none hfs, cut_of_none hfs]
        rcases none_or_first_within start stop gs with hgs | ⟨before, g, rest, rfl, hbefore, hg⟩
        · have hall := List.forall_mem_append.mpr ⟨hfs, hgs⟩
          rw [remaining_of_none hall, remaining_of_none hgs]
        · have hall := List.forall_mem_append.mpr ⟨hfs, hbefore⟩
          rw [← List.append_assoc, remaining_of_split hall hg, remaining_of_split hbefore hg,
            List.append_assoc]
      · have hrest : (rest ++ gs).Pairwise fun f g => Frame.pts f < Frame.pts g := by
          refine hsorted.sublist ?_
          rw [List.append_assoc]
          exact (List.sublist_cons_self f (rest ++ gs)).trans (List.sublist_append_right _ _)
        rw [remaining_of_split hbefore hf, cut_of_split hbefore hf, List.append_assoc,
          List.cons_append, remaining_of_split hbefore hf, dropWhile_append_eq_remaining hrest,
          List.append_assoc]

/-- The borders of the runs make no difference to what is left. -/
theorem flatMap_removeRuns
    (hsorted : (rs.flatMap Run.frames).Pairwise fun f g => Frame.pts f < Frame.pts g) :
    (removeRuns start stop removing rs).flatMap Run.frames =
      remaining start stop removing (rs.flatMap Run.frames) := by
  induction rs generalizing removing with
  | nil => cases removing <;> rfl
  | cons r rs ih =>
      rw [List.flatMap_cons] at hsorted ⊢
      have hrest := (List.pairwise_append.mp hsorted).2.1
      simp only [removeRuns, List.flatMap_append, flatMap_ofFrames_filter, ih hrest,
        remaining_append hsorted]
      rfl

end Borders

/-! ## The frames that are left -/

omit [Frame F T] [MediaTime T] in
theorem filter_of_parts {p : F → Prop} [DecidablePred p] {xs ys zs : List F}
    (hxs : ∀ x ∈ xs, ¬ p x) (hys : ∀ y ∈ ys, p y) (hzs : ∀ z ∈ zs, ¬ p z) :
    ((xs ++ (ys ++ zs)).filter fun f => ¬ p f) = xs ++ zs := by
  have hleft := List.filter_eq_self.mpr fun x hx => decide_eq_true (hxs x hx)
  have hgone : (ys.filter fun f => ¬ p f) = [] :=
    List.filter_eq_nil_iff.mpr fun y hy => by simpa using hys y hy
  have hright := List.filter_eq_self.mpr fun z hz => decide_eq_true (hzs z hz)
  rw [List.filter_append, List.filter_append, hleft, hgone, hright, List.nil_append]

theorem filter_of_none (hfs : ∀ g ∈ fs, ¬ (start ≤ Frame.pts g ∧ Frame.pts g < stop)) :
    (fs.filter fun f => ¬ IsRemoved fs start stop f) = fs := by
  refine List.filter_eq_self.mpr fun f hf => ?_
  rw [decide_eq_true_eq]
  rintro (hwithin | ⟨-, ⟨g, hg, hwithin⟩, -⟩)
  · exact hfs f hf hwithin
  · exact hfs g hg hwithin

section Remaining

variable [LawfulMediaTime T] {before rest : List F}

/-- The frames in front of the first one in the bounds stay. -/
theorem not_isRemoved_of_before {w : F} (hw : Frame.pts w < stop) (hfw : Frame.pts f < Frame.pts w)
    (hf : ¬ (start ≤ Frame.pts f ∧ Frame.pts f < stop)) : ¬ IsRemoved fs start stop f := by
  rintro (hwithin | ⟨hstop, -⟩)
  · exact hf hwithin
  · exact not_le_of_lt (lt_trans hfw hw) hstop

/-- A key frame past the bounds keeps itself and all that comes after it. -/
theorem not_isRemoved_of_keyFrame {k : F} (hk : k ∈ fs) (hend : endsRemoval stop k = true)
    (hkf : Frame.pts k ≤ Frame.pts f) : ¬ IsRemoved fs start stop f := by
  obtain ⟨hstop, hkey⟩ := endsRemoval_eq_true_iff.mp hend
  rintro (hwithin | ⟨-, -, hnone⟩)
  · exact not_le_of_lt hwithin.2 (le_trans hstop hkf)
  · exact hnone k hk hkey hstop hkf

/-- What follows the first frame in the bounds goes, up to the key frame that ends the removal. -/
theorem isRemoved_of_mem_takeWhile {w : F}
    (hsorted : (before ++ w :: rest).Pairwise fun f g => Frame.pts f < Frame.pts g)
    (hw : start ≤ Frame.pts w ∧ Frame.pts w < stop)
    (hf : f ∈ rest.takeWhile (! endsRemoval stop ·)) :
    IsRemoved (before ++ w :: rest) start stop f := by
  obtain ⟨-, hlater, hbefore⟩ := List.pairwise_append.mp hsorted
  have hwf : Frame.pts w < Frame.pts f :=
    List.rel_of_pairwise_cons hlater ((List.takeWhile_sublist _).subset hf)
  by_cases hstop : Frame.pts f < stop
  · exact Or.inl ⟨le_trans hw.1 (le_of_lt hwf), hstop⟩
  · have hle : stop ≤ Frame.pts f := le_of_not_lt (isNumber_of_le (le_of_lt hwf)).2
      (isNumber_of_le (le_of_lt hw.2)).2 hstop
    refine Or.inr ⟨hle, ⟨w, by simp, hw⟩, fun k hk hkey hstopk hkf => ?_⟩
    rcases List.mem_append.mp hk with hk | hk
    · have hkw := hbefore k hk w List.mem_cons_self
      exact not_le_of_lt (lt_trans hkw hw.2) hstopk
    · rcases List.mem_cons.mp hk with rfl | hk
      · exact not_le_of_lt hw.2 hstopk
      · have hparts := List.takeWhile_append_dropWhile (p := (! endsRemoval stop ·)) (l := rest)
        rw [← hparts] at hk hlater
        rcases List.mem_append.mp hk with hk | hk
        · have hnot := List.mem_takeWhile_imp hk
          simp [endsRemoval, hstopk, hkey] at hnot
        · have hrest := (List.pairwise_cons.mp hlater).2
          exact not_le_of_lt ((List.pairwise_append.mp hrest).2.2 f hf k hk) hkf

theorem not_isRemoved_of_mem_dropWhile
    (hsorted : rest.Pairwise fun f g => Frame.pts f < Frame.pts g)
    (hrest : ∀ g ∈ rest, g ∈ fs) (hf : f ∈ rest.dropWhile (! endsRemoval stop ·))
    (hnumber : IsNumber (Frame.pts f)) : ¬ IsRemoved fs start stop f := by
  have hsublist : (rest.dropWhile (! endsRemoval stop ·)).Sublist rest := List.dropWhile_sublist _
  have hhead := List.head?_dropWhile_not (! endsRemoval stop ·) rest
  cases hkept : rest.dropWhile (! endsRemoval stop ·) with
  | nil => simp [hkept] at hf
  | cons k ks =>
      rw [hkept] at hf hhead hsublist
      have hk : k ∈ fs := hrest k (hsublist.subset List.mem_cons_self)
      refine not_isRemoved_of_keyFrame hk (by simpa using hhead) ?_
      rcases List.mem_cons.mp hf with rfl | hf
      · exact hnumber
      · exact le_of_lt (List.rel_of_pairwise_cons (hsorted.sublist hsublist) hf)

theorem filter_of_split {w : F}
    (hsorted : (before ++ w :: rest).Pairwise fun f g => Frame.pts f < Frame.pts g)
    (hbefore : ∀ g ∈ before, ¬ (start ≤ Frame.pts g ∧ Frame.pts g < stop))
    (hw : start ≤ Frame.pts w ∧ Frame.pts w < stop) :
    ((before ++ w :: rest).filter fun f => ¬ IsRemoved (before ++ w :: rest) start stop f) =
      before ++ rest.dropWhile (! endsRemoval stop ·) := by
  obtain ⟨-, hlater, hfirst⟩ := List.pairwise_append.mp hsorted
  have hkeep : ∀ f ∈ before, ¬ IsRemoved (before ++ w :: rest) start stop f := fun f hf =>
    not_isRemoved_of_before hw.2 (hfirst f hf w List.mem_cons_self) (hbefore f hf)
  have hgone : ∀ f ∈ w :: rest.takeWhile (! endsRemoval stop ·),
      IsRemoved (before ++ w :: rest) start stop f :=
    List.forall_mem_cons.mpr ⟨Or.inl hw, fun f hf => isRemoved_of_mem_takeWhile hsorted hw hf⟩
  have hstay : ∀ f ∈ rest.dropWhile (! endsRemoval stop ·),
      ¬ IsRemoved (before ++ w :: rest) start stop f := by
    intro f hf
    have hwf := List.rel_of_pairwise_cons hlater ((List.dropWhile_sublist _).subset hf)
    exact not_isRemoved_of_mem_dropWhile (List.pairwise_cons.mp hlater).2
      (fun g hg => by simp [hg]) hf (isNumber_of_le (le_of_lt hwf)).2
  have hparts : w :: rest = (w :: rest.takeWhile (! endsRemoval stop ·)) ++
      rest.dropWhile (! endsRemoval stop ·) := by
    rw [List.cons_append, List.takeWhile_append_dropWhile]
  calc (before ++ w :: rest).filter (fun f => ¬ IsRemoved (before ++ w :: rest) start stop f)
      = (before ++ ((w :: rest.takeWhile (! endsRemoval stop ·)) ++
          rest.dropWhile (! endsRemoval stop ·))).filter
            (fun f => ¬ IsRemoved (before ++ w :: rest) start stop f) :=
        congrArg (fun fs => (before ++ fs).filter _) hparts
    _ = before ++ rest.dropWhile (! endsRemoval stop ·) := filter_of_parts hkeep hgone hstay

/-- One list of frames loses those that are removed from it and no others. -/
theorem remaining_eq_filter (hsorted : fs.Pairwise fun f g => Frame.pts f < Frame.pts g) :
    remaining start stop false fs = fs.filter fun f => ¬ IsRemoved fs start stop f := by
  have houtside : ∀ g : F, within start stop g = false →
      ¬ (start ≤ Frame.pts g ∧ Frame.pts g < stop) := fun g hg => by
    rw [← within_eq_true_iff, hg]
    exact Bool.false_ne_true
  rcases none_or_first_within start stop fs with hfs | ⟨before, w, rest, rfl, hbefore, hw⟩
  · rw [remaining_of_none hfs, filter_of_none fun g hg => houtside g (hfs g hg)]
  · rw [remaining_of_split hbefore hw, filter_of_split hsorted
      (fun g hg => houtside g (hbefore g hg)) (within_eq_true_iff.mp hw)]

/-- In a buffer that is sorted by presentation time, removal takes away the frames in the bounds
and, if there are any, those that follow the bounds up to the next key frame, and leaves all others
in their order. Nothing is taken away if no frame is in the bounds. -/
theorem toList_remove (hsorted : b.toList.Pairwise fun f g => Frame.pts f < Frame.pts g)
    (start stop : T) :
    (b.remove start stop).toList = b.toList.filter (fun f => ¬ IsRemoved b.toList start stop f) ∧
      ((∀ f ∈ b.toList, ¬ (start ≤ Frame.pts f ∧ Frame.pts f < stop)) →
        (b.remove start stop).toList = b.toList) := by
  have hremove : (b.remove start stop).toList = remaining start stop false b.toList :=
    flatMap_removeRuns hsorted
  rw [hremove, remaining_eq_filter hsorted]
  exact ⟨rfl, filter_of_none⟩

/-- Two scenes, of which the second begins with a frame that depends on the first. -/
def openScenes : EncodedBuffer Float :=
  (empty .pts).addAll [picture 0 true, picture 1 false, picture 2 false,
    picture 5 false, picture 6 true, picture 7 false]

/-- Taking away one frame takes away the next ones too, up to the key frame of the second scene. -/
theorem toList_remove_openScenes :
    (openScenes.toList.Pairwise fun f g => Frame.pts f < Frame.pts g) ∧
      openScenes.runs.length = 2 ∧
      (openScenes.remove 1 2).toList = [picture 0 true, picture 6 true, picture 7 false] ∧
      (openScenes.remove 3 5).toList = openScenes.toList := by
  have hsorted : openScenes.toList.Pairwise fun f g => Frame.pts f < Frame.pts g := by
    decide +kernel
  refine ⟨hsorted, by decide +kernel, (toList_remove hsorted 1 2).1.trans (by decide +kernel), ?_⟩
  exact (toList_remove hsorted 3 5).2 (by decide +kernel)

end Remaining

end FrameBuffer

end MediaPipeline
