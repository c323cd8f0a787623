import MediaPipeline.Proofs.FrameBuffer.Remaining

/-!
# Removal from one run after another

Of a run there is left a part in front, which begins as the run does, and a part that begins with
the key frame at which removal ends. Removal does not look at the second part again, so where the
frames of a run are not in the order of presentation a frame in the bounds may be left there.
-/

namespace MediaPipeline

open MediaTime LawfulMediaTime

section Definitions

variable {F T : Type} [Frame F T] [MediaTime T]

/-- The first frame of the run, and so the run, can be decoded. -/
def Run.StartsWithKeyFrame (r : Run F T) : Prop := r.frames.head?.any Frame.isKeyFrame = true

instance (r : Run F T) : Decidable r.StartsWithKeyFrame := by
  unfold Run.StartsWithKeyFrame; infer_instance

namespace FrameBuffer

/-- Removal begins in `fs`, and after that nothing in `fs` ends it. -/
def IsUnderWay (start stop : T) (fs : List F) : Prop :=
  ∃ before v after, fs = before ++ v :: after ∧ within start stop v = true ∧
    ∀ k ∈ after, endsRemoval stop k = false

/-- A frame in the bounds comes after a key frame at which removal ends. -/
def ComesLate (start stop : T) (fs : List F) : Prop :=
  ∃ before k after, fs = before ++ k :: after ∧ endsRemoval stop k = true ∧
    ∃ w ∈ after, within start stop w = true

/-- In the run `fs`, which follows the frames in `passed`, removal ends before it has come to every
frame in the bounds. -/
def EndsEarly (start stop : T) (passed fs : List F) : Prop :=
  (IsUnderWay start stop passed ∧ ComesLate start stop fs) ∨
    ∃ before v after, fs = before ++ v :: after ∧ within start stop v = true ∧
      ComesLate start stop after

end FrameBuffer

end Definitions

namespace FrameBuffer

variable {F T : Type} [Frame F T] [MediaTime T] {start stop : T} {removing : Bool}
  {passed fs gs : List F} {f k v : F} {r s : Run F T} {rs : List (Run F T)} {b : FrameBuffer F T}

/-! ## The parts of a run -/

theorem cut_front_prefix (start stop : T) (removing : Bool) (fs : List F) :
    (cut start stop removing fs).1 <+: fs := by
  cases removing with
  | true => exact List.nil_prefix
  | false =>
      rcases none_or_first_within start stop fs with hfs | ⟨before, f, rest, rfl, hbefore, hf⟩
      · rw [cut_of_none hfs]
      · rw [cut_of_split hbefore hf]
        exact List.prefix_append before _

theorem endsRemoval_of_mem_head? (hk : k ∈ (fs.dropWhile (! endsRemoval stop ·)).head?) :
    endsRemoval stop k = true := by
  have hhead := List.head?_dropWhile_not (! endsRemoval stop ·) fs
  simpa [Option.mem_def.mp hk] using hhead

theorem endsRemoval_of_mem_head?_cut (hk : k ∈ (cut start stop removing fs).2.1.head?) :
    endsRemoval stop k = true := by
  cases removing with
  | true => exact endsRemoval_of_mem_head? hk
  | false =>
      rcases none_or_first_within start stop fs with hfs | ⟨before, f, rest, rfl, hbefore, hf⟩
      · simp [cut_of_none hfs] at hk
      · rw [cut_of_split hbefore hf] at hk
        exact endsRemoval_of_mem_head? hk

/-- Where every run begins with a key frame, so does every run that removal leaves, whatever the
bounds. -/
theorem startsWithKeyFrame_remove (hb : ∀ r ∈ b.runs, r.StartsWithKeyFrame) (start stop : T) :
    ∀ r ∈ (b.remove start stop).runs, r.frames ≠ [] ∧ r.StartsWithKeyFrame := by
  intro s hs
  obtain ⟨r, hr, goesOn, part, hpart, hne, rfl⟩ := exists_cut_of_mem_removeRuns hs
  refine ⟨hne, ?_⟩
  obtain ⟨k, ks, hk⟩ := List.exists_cons_of_ne_nil hne
  suffices hkey : Frame.isKeyFrame k = true by simpa [Run.StartsWithKeyFrame, Run.ofFrames, hk]
  rcases List.mem_pair.mp hpart with rfl | rfl
  · -- The part in front begins as the run does.
    obtain ⟨rest, hrest⟩ := cut_front_prefix start stop goesOn r.frames
    have hhead : r.frames.head? = some k := by
      rw [← hrest, hk]
      rfl
    have hkey := hb r hr
    rwa [Run.StartsWithKeyFrame, hhead] at hkey
  · have hends := endsRemoval_of_mem_head?_cut (List.head?_eq_some_iff.mpr ⟨ks, hk⟩)
    exact (endsRemoval_eq_true_iff.mp hends).2

/-- Three runs, in the first two of which a frame is shown before the key frame that it follows. -/
def reorderedScenes : EncodedBuffer Float :=
  (empty .dts).addAll
    [{ picture 0 true with pts := 1 }, { picture 1 false with pts := 0 }, picture 2 true,
      { picture 5 true with pts := 6 }, { picture 6 false with pts := 5 },
      picture 10 true, picture 11 false]

/-- The first run is split; or it is cut short, the second one goes and the third one stays; or
nothing is left. -/
theorem startsWithKeyFrame_remove_reorderedScenes :
    (∀ r ∈ reorderedScenes.runs, r.StartsWithKeyFrame) ∧
      (∀ r ∈ (reorderedScenes.remove 0 0.5).runs, r.frames ≠ [] ∧ r.StartsWithKeyFrame) ∧
      (∀ r ∈ (reorderedScenes.remove 2 7).runs, r.frames ≠ [] ∧ r.StartsWithKeyFrame) ∧
      (∀ r ∈ (reorderedScenes.remove negInf posInf).runs, r.frames ≠ [] ∧ r.StartsWithKeyFrame) ∧
      [reorderedScenes.remove 0 0.5, reorderedScenes.remove 2 7,
        reorderedScenes.remove negInf posInf].map (·.runs.map (·.frames.length)) =
          [[1, 1, 2, 2], [2, 2], []] := by
  have hkeys : ∀ r ∈ reorderedScenes.runs, r.StartsWithKeyFrame := by decide +kernel
  exact ⟨hkeys, startsWithKeyFrame_remove hkeys 0 0.5, startsWithKeyFrame_remove hkeys 2 7,
    startsWithKeyFrame_remove hkeys negInf posInf, by decide +kernel⟩

/-! ## Frames in the bounds that are left -/

omit [Frame F T] [MediaTime T] in
theorem exists_split_cons_iff {α : Type} {a : α} {as : List α}
    {P : List α → α → List α → Prop} :
    (∃ before x after, a :: as = before ++ x :: after ∧ P before x after) ↔
      P [] a as ∨ ∃ before x after, as = before ++ x :: after ∧ P (a :: before) x after := by
  constructor
  · rintro ⟨before, x, after, hsplit, hP⟩
    cases before with
    | nil =>
        obtain ⟨rfl, rfl⟩ := List.cons.inj hsplit
        exact Or.inl hP
    | cons y before =>
        obtain ⟨rfl, hrest⟩ := List.cons.inj hsplit
        exact Or.inr ⟨before, x, after, hrest, hP⟩
  · rintro (hP | ⟨before, x, after, rfl, hP⟩)
    · exact ⟨[], a, as, rfl, hP⟩
    · exact ⟨a :: before, x, after, rfl, hP⟩

@[simp] theorem not_isUnderWay_nil : ¬ IsUnderWay start stop ([] : List F) := by
  simp [IsUnderWay]

@[simp] theorem isUnderWay_cons : IsUnderWay start stop (f :: fs) ↔
    (within start stop f = true ∧ ∀ k ∈ fs, endsRemoval stop k = false) ∨
      IsUnderWay start stop fs :=
  exists_split_cons_iff

@[simp] theorem not_comesLate_nil : ¬ ComesLate start stop ([] : List F) := by
  simp [ComesLate]

@[simp] theorem comesLate_cons : ComesLate start stop (f :: fs) ↔
    (endsRemoval stop f = true ∧ ∃ w ∈ fs, within start stop w = true) ∨
      ComesLate start stop fs :=
  exists_split_cons_iff

theorem isUnderWay_append : IsUnderWay start stop (fs ++ gs) ↔
    IsUnderWay start stop gs ∨
      IsUnderWay start stop fs ∧ ∀ k ∈ gs, endsRemoval stop k = false := by
  induction fs with
  | nil => simp
  | cons f fs ih =>
      simp only [List.cons_append, isUnderWay_cons, ih, List.forall_mem_append]
      tauto

theorem IsUnderWay.exists_within (hfs : IsUnderWay start stop fs) :
    ∃ v ∈ fs, within start stop v = true := by
  obtain ⟨before, v, after, rfl, hv, -⟩ := hfs
  exact ⟨v, by simp, hv⟩

theorem ComesLate.append (hgs : ComesLate start stop gs) : ComesLate start stop (fs ++ gs) := by
  induction fs with
  | nil => exact hgs
  | cons f fs ih => exact comesLate_cons.mpr (Or.inr ih)

theorem EndsEarly.comesLate (hfs : EndsEarly start stop passed fs) : ComesLate start stop fs := by
  rcases hfs with ⟨-, hlate⟩ | ⟨before, v, after, rfl, -, hlate⟩
  · exact hlate
  · exact ComesLate.append (comesLate_cons.mpr (Or.inr hlate))

/-- What begins at a frame in the bounds and comes late has begun at the first one too. -/
theorem comesLate_of_split {before rest : List F}
    (hbefore : ∀ g ∈ before, within start stop g = false)
    (hlate : ∃ early v after, before ++ f :: rest = early ++ v :: after ∧
      within start stop v = true ∧ ComesLate start stop after) : ComesLate start stop rest := by
  induction before with
  | nil =>
      rcases exists_split_cons_iff.mp hlate with ⟨-, hrest⟩ | ⟨early, v, after, rfl, -, hafter⟩
      · exact hrest
      · exact ComesLate.append (comesLate_cons.mpr (Or.inr hafter))
  | cons g before ih =>
      obtain ⟨hg, hbefore⟩ := List.forall_mem_cons.mp hbefore
      rcases exists_split_cons_iff.mp hlate with ⟨hwithin, -⟩ | hlater
      · simp [hg] at hwithin
      · exact ih hbefore hlater

theorem isEmpty_dropWhile_iff : (fs.dropWhile (! endsRemoval stop ·)).isEmpty = true ↔
    ∀ k ∈ fs, endsRemoval stop k = false := by
  simp [List.isEmpty_iff, List.dropWhile_eq_nil_iff]

variable [LawfulMediaTime T]

theorem endsRemoval_of_within (hf : within start stop f = true) : endsRemoval stop f = false := by
  have hlt := (within_eq_true_iff.mp hf).2
  rw [← Bool.not_eq_true, endsRemoval_eq_true_iff]
  exact fun hends => not_le_of_lt hlt hends.1

theorem comesLate_iff : ComesLate start stop fs ↔
    ∃ w ∈ fs.dropWhile (! endsRemoval stop ·), within start stop w = true := by
  induction fs with
  | nil => simp
  | cons f fs ih =>
      cases hf : endsRemoval stop f with
      | false => simp [hf, ih]
      | true =>
          have hnot : within start stop f = false := by
            by_contra hwithin
            simp [endsRemoval_of_within (Bool.eq_true_of_not_eq_false hwithin)] at hf
          have hlate : ComesLate start stop fs → ∃ w ∈ fs, within start stop w = true := by
            rintro ⟨before, k, after, rfl, -, w, hw, hwithin⟩
            exact ⟨w, by simp [hw], hwithin⟩
          simpa [hf, hnot] using hlate

/-- If removal is under way at the end and no frame in the bounds comes late, it has not ended. -/
theorem IsUnderWay.forall_endsRemoval_eq_false (hfs : IsUnderWay start stop fs)
    (hlate : ¬ ComesLate start stop fs) : ∀ k ∈ fs, endsRemoval stop k = false := by
  induction fs with
  | nil => simp
  | cons f fs ih =>
      rw [comesLate_cons, not_or] at hlate
      rcases isUnderWay_cons.mp hfs with ⟨hf, hnone⟩ | hlater
      · exact List.forall_mem_cons.mpr ⟨endsRemoval_of_within hf, hnone⟩
      · have hf : endsRemoval stop f = false := by
          by_contra hends
          exact hlate.1 ⟨Bool.eq_true_of_not_eq_false hends, hlater.exists_within⟩
        exact List.forall_mem_cons.mpr ⟨hf, ih hlater hlate.2⟩

/-- One run, if it is known whether removal is under way when it begins. -/
theorem exists_within_remaining_iff (hflag : removing = true ↔ IsUnderWay start stop passed) :
    (∃ w ∈ remaining start stop removing fs, within start stop w = true) ↔
      EndsEarly start stop passed fs := by
  cases removing with
  | true =>
      have hlate : EndsEarly start stop passed fs ↔ ComesLate start stop fs :=
        ⟨EndsEarly.comesLate, fun hlate => Or.inl ⟨hflag.mp rfl, hlate⟩⟩
      rw [hlate, comesLate_iff]
      simp [remaining, cut]
  | false =>
      have hpassed : ¬ IsUnderWay start stop passed := fun h => Bool.false_ne_true (hflag.mpr h)
      rw [EndsEarly, or_iff_right fun h => hpassed h.1]
      rcases none_or_first_within start stop fs with hfs | ⟨before, v, rest, rfl, hbefore, hv⟩
      · rw [remaining_of_none hfs]
        constructor
        · rintro ⟨w, hw, hwithin⟩
          simp [hfs w hw] at hwithin
        · rintro ⟨before, v, after, rfl, hv, -⟩
          simp [hfs v (by simp)] at hv
      · have hfront : ¬ ∃ w ∈ before, within start stop w = true := by
          rintro ⟨w, hw, hwithin⟩
          simp [hbefore w hw] at hwithin
        simp only [remaining_of_split hbefore hv, List.mem_append, or_and_right, exists_or,
          or_iff_right hfront, ← comesLate_iff]
        exact ⟨fun hlate => ⟨before, v, rest, rfl, hv, hlate⟩, comesLate_of_split hbefore⟩

/-- Removal is under way after a run exactly if it goes on in the next one, unless it has left a
frame in the bounds. -/
theorem cut_goesOn_iff (hflag : removing = true ↔ IsUnderWay start stop passed)
    (hearly : ¬ EndsEarly start stop passed fs) :
    (cut start stop removing fs).2.2 = true ↔ IsUnderWay start stop (passed ++ fs) := by
  obtain ⟨hpassed, hfs⟩ := not_or.mp hearly
  rw [isUnderWay_append, ← hflag]
  cases removing with
  | true =>
      have hlate : ¬ ComesLate start stop fs := fun hlate => hpassed ⟨hflag.mp rfl, hlate⟩
      have hnone : IsUnderWay start stop fs → ∀ k ∈ fs, endsRemoval stop k = false := fun h =>
        h.forall_endsRemoval_eq_false hlate
      simpa [cut, isEmpty_dropWhile_iff] using hnone
  | false =>
      rcases none_or_first_within start stop fs with hnone | ⟨before, v, rest, rfl, hbefore, hv⟩
      · have hfs : ¬ IsUnderWay start stop fs := by
          intro hfs
          obtain ⟨v, hmem, hv⟩ := hfs.exists_within
          simp [hnone v hmem] at hv
        simp [cut_of_none hnone, hfs]
      · have hlate : ¬ ComesLate start stop rest := fun hlate =>
          hfs ⟨before, v, rest, rfl, hv, hlate⟩
        have hfront : ¬ IsUnderWay start stop before := by
          intro hfront
          obtain ⟨w, hmem, hw⟩ := hfront.exists_within
          simp [hbefore w hmem] at hw
        have hrest : IsUnderWay start stop rest → ∀ k ∈ rest, endsRemoval stop k = false :=
          fun h => h.forall_endsRemoval_eq_false hlate
        rw [cut_of_split hbefore hv, isUnderWay_append, isEmpty_dropWhile_iff]
        simpa [hfront, hv] using hrest

/-- What removal leaves in the bounds, if it is known whether it is under way after the frames in
`passed`. -/
theorem exists_within_removeRuns_iff (hflag : removing = true ↔ IsUnderWay start stop passed) :
    (∃ w ∈ (removeRuns start stop removing rs).flatMap Run.frames,
      within start stop w = true) ↔
    ∃ earlier r later, rs = earlier ++ r :: later ∧
      EndsEarly start stop (passed ++ earlier.flatMap Run.frames) r.frames := by
  induction rs generalizing removing passed with
  | nil => simp [removeRuns]
  | cons r rs ih =>
      have hframes : (removeRuns start stop removing (r :: rs)).flatMap Run.frames =
          remaining start stop removing r.frames ++
            (removeRuns start stop (cut start stop removing r.frames).2.2 rs).flatMap
              Run.frames := by
        simp [removeRuns, flatMap_ofFrames_filter, remaining]
      simp only [hframes, List.mem_append, or_and_right, exists_or,
        exists_within_remaining_iff hflag, exists_split_cons_iff, List.flatMap_nil,
        List.append_nil, List.flatMap_cons, ← List.append_assoc]
      by_cases hearly : EndsEarly start stop passed r.frames
      · simp [hearly]
      · rw [ih (cut_goesOn_iff hflag hearly)]

theorem not_endsEarly_of_closed (hfs : fs.Pairwise fun k f =>
    Frame.isKeyFrame k = true → Frame.pts k ≤ Frame.pts f) : ¬ EndsEarly start stop passed fs := by
  intro hearly
  obtain ⟨before, k, after, rfl, hk, w, hw, hwithin⟩ := hearly.comesLate
  obtain ⟨hstop, hkey⟩ := endsRemoval_eq_true_iff.mp hk
  have hkw := List.rel_of_pairwise_cons (List.pairwise_append.mp hfs).2.1 hw hkey
  exact not_le_of_lt (within_eq_true_iff.mp hwithin).2 (le_trans hstop hkw)

/-- Removal leaves no frame in the bounds exactly if it ends early in no run: it ends only at a key
frame behind which, in the same run, there is no frame in the bounds. That is so if no frame that
follows a key frame in a run is shown before it. -/
theorem remove_clears_bounds_iff (b : FrameBuffer F T) (start stop : T) :
    ((∀ f ∈ (b.remove start stop).toList, ¬ (start ≤ Frame.pts f ∧ Frame.pts f < stop)) ↔
      ∀ earlier r later, b.runs = earlier ++ r :: later →
        ¬ EndsEarly start stop (earlier.flatMap Run.frames) r.frames) ∧
    ((∀ r ∈ b.runs, r.frames.Pairwise fun k f =>
        Frame.isKeyFrame k = true → Frame.pts k ≤ Frame.pts f) →
      ∀ f ∈ (b.remove start stop).toList, ¬ (start ≤ Frame.pts f ∧ Frame.pts f < stop)) := by
  have hflag : false = true ↔ IsUnderWay start stop ([] : List F) := by simp
  have hleft : (∃ w ∈ (b.remove start stop).toList, within start stop w = true) ↔ _ :=
    exists_within_removeRuns_iff hflag
  simp only [List.nil_append, within_eq_true_iff] at hleft
  refine ⟨⟨?_, ?_⟩, ?_⟩
  · intro hclear earlier r later hsplit hearly
    obtain ⟨w, hw, hwithin⟩ := hleft.mpr ⟨earlier, r, later, hsplit, hearly⟩
    exact hclear w hw hwithin
  · intro hnone f hf hwithin
    obtain ⟨earlier, r, later, hsplit, hearly⟩ := hleft.mp ⟨f, hf, hwithin⟩
    exact hnone earlier r later hsplit hearly
  · intro hclosed f hf hwithin
    obtain ⟨earlier, r, later, hsplit, hearly⟩ := hleft.mp ⟨f, hf, hwithin⟩
    exact not_endsEarly_of_closed (hclosed r (by simp [hsplit])) hearly

/-- The second key frame comes with two frames that are decoded after it and shown before it. -/
def leadingPictures : EncodedBuffer Float :=
  (empty .dts).addAll
    [picture 0 true, { picture 1 true with pts := 3 }, { picture 2 false with pts := 1 },
      { picture 3 false with pts := 2 }]

/-- Removal does not end if no key frame is left behind the bounds; it ends early if the leading
pictures are in the bounds and their key frame is not. -/
theorem remove_clears_bounds_iff_leadingPictures :
    LawfulMediaTime Float ∧
    (∀ earlier r later, leadingPictures.runs = earlier ++ r :: later →
      ¬ EndsEarly 2 4 (earlier.flatMap Run.frames) r.frames) ∧
    ¬ ∀ earlier r later, leadingPictures.runs = earlier ++ r :: later →
      ¬ EndsEarly 0 3 (earlier.flatMap Run.frames) r.frames := by
  refine ⟨inferInstance, ?_, ?_⟩
  · exact (remove_clears_bounds_iff leadingPictures 2 4).1.mp (by decide +kernel)
  · exact mt (remove_clears_bounds_iff leadingPictures 0 3).1.mpr (by decide +kernel)

/-- Removing all that is shown before the second key frame leaves its leading pictures. -/
theorem leadingPictures_left :
    ¬ ∀ b : EncodedBuffer Float, b.order = .dts → b.Sorted → ∀ start stop, start < stop →
      ∀ f ∈ (b.remove start stop).toList, ¬ (start ≤ Frame.pts f ∧ Frame.pts f < stop) := by
  intro hclears
  have hsorted : leadingPictures.Sorted := by decide +kernel
  have hlt : (0 : Float) < 3 := by decide +kernel
  have hmem : { picture 2 false with pts := 1 } ∈ (leadingPictures.remove 0 3).toList := by
    decide +kernel
  exact hclears leadingPictures rfl hsorted 0 3 hlt _ hmem ⟨by decide +kernel, by decide +kernel⟩

end FrameBuffer

end MediaPipeline
