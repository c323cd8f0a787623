import MediaPipeline.FrameBuffer.Lookup
import MediaPipeline.Proofs.FrameBuffer.Adding

/-!
# Looking up frames in a sorted buffer

A lookup settles on one run, searches that run and glances at its neighbours. For the frame after a
time this comes to the first such frame of the whole buffer. A key frame is sought only in the run
that was settled on.
-/

namespace MediaPipeline

open MediaTime LawfulMediaTime

variable {F T : Type} [Frame F T] [MediaTime T]

namespace FrameOrder

variable [LawfulMediaTime T] {order : FrameOrder} {fs : List F} {t : T}

theorem Ascending.exists_border (hfs : order.Ascending fs) (ht : IsNumber t) :
    ∃ below rest, fs = below ++ rest ∧ order.Border t below rest := by
  refine ⟨_, _, (hfs.filter_append_filter ht).symm, ?_, ?_⟩
  · exact fun g hg => of_decide_eq_true (List.mem_filter.mp hg).2
  · exact fun g hg => of_decide_eq_true (List.mem_filter.mp hg).2

/-- Keys that increase strictly are numbers, unless there is one key alone. -/
theorem ascending_or_eq_singleton (hkeys : fs.Pairwise fun f g => order.key f < order.key g) :
    order.Ascending fs ∨ ∃ f, fs = [f] ∧ ¬ IsNumber (order.key f) := by
  match fs with
  | [] => exact Or.inl ⟨by simp, hkeys⟩
  | [f] =>
      by_cases hf : IsNumber (order.key f)
      · exact Or.inl ⟨by simpa using hf, hkeys⟩
      · exact Or.inr ⟨f, rfl, hf⟩
  | f :: g :: rest =>
      have hfirst := (List.pairwise_cons.mp hkeys).1
      refine Or.inl ⟨fun h hh => ?_, hkeys⟩
      rcases List.mem_cons.mp hh with rfl | hh
      · exact (isNumber_of_le (le_of_lt (hfirst g List.mem_cons_self))).1
      · exact (isNumber_of_le (le_of_lt (hfirst h hh))).2

omit [LawfulMediaTime T] in
theorem find?_eq_head? (hfs : ∀ g ∈ fs, t < order.key g) :
    fs.find? (fun g => decide (t < order.key g)) = fs.head? := by
  cases fs with
  | nil => rfl
  | cons g fs => simp [hfs g List.mem_cons_self]

theorem Ascending.find?_after {c : F} {before rest : List F}
    (hasc : order.Ascending (before ++ c :: rest)) :
    (before ++ c :: rest).find? (fun g => decide (order.key c < order.key g)) = rest.head? := by
  obtain ⟨-, htail, hborder⟩ := List.pairwise_append.mp hasc.pairwise
  have hbefore : before.find? (fun g => decide (order.key c < order.key g)) = none := by
    refine List.find?_eq_none.mpr fun g hg => ?_
    simpa using not_lt_of_lt (hborder g hg c List.mem_cons_self)
  have hself : ¬ order.key c < order.key c := fun hlt => not_le_of_lt hlt (le_of_lt hlt)
  have hrest := find?_eq_head? (List.pairwise_cons.mp htail).1
  simp [List.find?_append, hbefore, hself, hrest]

end FrameOrder

namespace FrameBuffer

variable {order : FrameOrder} {t : T} {r : Run F T} {rs : List (Run F T)}
  {prev : Option (Run F T)} {b : FrameBuffer F T}

/-- A run ends at a time or later as soon as one of its frames starts there. -/
theorem endsFrom_iff [LawfulMediaTime T] (hrun : order.Ascending r.frames) :
    r.endsFrom order t = true ↔ ∃ f ∈ r.frames, t ≤ order.key f := by
  constructor
  · intro hend
    obtain ⟨last, hlast, hle⟩ := (Option.any_eq_true _ _).mp hend
    exact ⟨last, List.mem_of_getLast? hlast, of_decide_eq_true hle⟩
  · rintro ⟨f, hf, htf⟩
    have hlast := List.getLast?_eq_some_getLast (List.ne_nil_of_mem hf)
    refine (Option.any_eq_true _ _).mpr ⟨_, hlast, decide_eq_true ?_⟩
    by_contra hnot
    have hlt := lt_of_not_le (hrun.isNumber _ (List.getLast_mem _)) (isNumber_of_le htf).1 hnot
    exact not_le_of_lt (hrun.forall_lt_of_getLast? hlast hlt f hf) htf

/-- Nothing is found where no key is a number. -/
theorem endsFrom_eq_false [LawfulMediaTime T] (hr : r ∈ b.runs)
    (hnone : ∀ f ∈ b.toList, ¬ IsNumber (b.order.key f)) : r.endsFrom b.order t = false := by
  simp only [Run.endsFrom, Option.any_eq_false, decide_eq_false_iff_not]
  intro f hf hle
  exact hnone f (List.mem_flatMap_of_mem hr (List.mem_of_getLast? hf)) (isNumber_of_le hle).2

/-! ## The frame after a time -/

section After

variable [LawfulMediaTime T]

theorem Focus.after_eq_find? {f : Focus F T} {later : List F}
    (hasc : order.Ascending (f.run.frames ++ later)) (hend : f.run.endsFrom order t = true)
    (hnext : f.next.bind (·.frames.head?) = later.head?) :
    f.after order t = (f.run.frames ++ later).find? fun g => decide (t < order.key g) := by
  obtain ⟨last, hlast, hle⟩ := (Option.any_eq_true _ _).mp hend
  have ht : t ≤ order.key last := of_decide_eq_true hle
  have hrun : order.Ascending f.run.frames := hasc.of_sublist (List.sublist_append_left _ _)
  obtain ⟨below, rest, hsplit, hborder⟩ := hrun.exists_border (isNumber_of_le ht).1
  have hnone : below.find? (fun g => decide (t < order.key g)) = none := by
    refine List.find?_eq_none.mpr fun g hg => ?_
    simpa using not_lt_of_lt (hborder.below g hg)
  cases rest with
  | nil =>
      -- The last frame of the run stands behind the border.
      have hmem : last ∈ below := by
        rw [hsplit, List.append_nil] at hlast
        exact List.mem_of_getLast? hlast
      exact absurd ht (not_le_of_lt (hborder.below last hmem))
  | cons g rest =>
      have hg : t ≤ order.key g := hborder.rest g List.mem_cons_self
      unfold Focus.after
      simp only [hsplit, hborder.lowerBound, hnext, List.append_assoc, List.find?_append, hnone]
      by_cases htg : t < order.key g
      · simp [htg]
      · have hlater : ∀ h ∈ rest ++ later, t < order.key h := by
          have htail : order.Ascending (g :: (rest ++ later)) := by
            refine hasc.of_sublist ?_
            rw [hsplit, List.append_assoc]
            exact List.sublist_append_right _ _
          intro h hh
          exact lt_of_le_of_lt hg (List.rel_of_pairwise_cons htail.pairwise hh)
        have hfind := FrameOrder.find?_eq_head? hlater
        rw [List.find?_append, List.head?_append] at hfind
        simp [htg, hfind, List.getElem?_append_right, List.head?_eq_getElem?]

theorem focus?_bind_after (hne : ∀ r ∈ rs, r.frames ≠ [])
    (hasc : order.Ascending (rs.flatMap Run.frames)) :
    (focus? order t prev rs).bind (·.after order t) =
      (rs.flatMap Run.frames).find? fun g => decide (t < order.key g) := by
  induction rs generalizing prev with
  | nil => rfl
  | cons r rs ih =>
      obtain ⟨hr, hlater⟩ := List.forall_mem_cons.mp hne
      rw [List.flatMap_cons] at hasc ⊢
      by_cases hend : r.endsFrom order t
      · have hnext : rs.head?.bind (·.frames.head?) = (rs.flatMap Run.frames).head? := by
          cases rs with
          | nil => rfl
          | cons next rs =>
              obtain ⟨g, gs, hg⟩ :=
                List.exists_cons_of_ne_nil (hlater next List.mem_cons_self)
              simp [hg]
        simp only [focus?, hend, if_true, Option.bind_some]
        exact Focus.after_eq_find? (f := ⟨prev, r, rs.head?⟩) hasc hend hnext
      · have hnone : r.frames.find? (fun g => decide (t < order.key g)) = none := by
          refine List.find?_eq_none.mpr fun g hg => ?_
          have hrun : order.Ascending r.frames :=
            hasc.of_sublist (List.sublist_append_left _ _)
          simp only [decide_eq_true_eq]
          exact fun htg => hend ((endsFrom_iff hrun).mpr ⟨g, hg, le_of_lt htg⟩)
        have htail := hasc.of_sublist (List.sublist_append_right r.frames _)
        simpa [focus?, hend, List.find?_append, hnone] using ih hlater htail

/-- The first frame after a time, wherever the borders of the runs are. -/
theorem getFrame_after (hne : ∀ r ∈ b.runs, r.frames ≠ []) (hasc : b.order.Ascending b.toList) :
    b.getFrame t .after = b.toList.find? fun g => decide (t < b.order.key g) :=
  focus?_bind_after hne hasc

end After

/-! ## The key frame before a time -/

/-- The run in which a key frame at `t` or before is sought: the first that ends at `t` or later,
else the last. -/
def runAt? (b : FrameBuffer F T) (t : T) : Option (Run F T) :=
  (b.runs.find? (·.endsFrom b.order t)).or b.runs.getLast?

theorem map_run_focus? (prev : Option (Run F T)) :
    (focus? order t prev rs).map Focus.run = rs.find? (·.endsFrom order t) := by
  induction rs generalizing prev with
  | nil => rfl
  | cons r rs ih =>
      by_cases hend : r.endsFrom order t
      · simp [focus?, hend]
      · simpa [focus?, hend] using ih (some r)

omit [Frame F T] [MediaTime T] in
theorem map_run_lastFocus? : (lastFocus? rs).map Focus.run = rs.getLast? := by
  induction rs with
  | nil => rfl
  | cons r rs ih =>
      cases rs with
      | nil => rfl
      | cons next rs =>
          rw [lastFocus?, List.getLast?_cons_cons, ← ih]
          cases lastFocus? (next :: rs) <;> rfl

theorem map_run_searched :
    (focus? b.order t none b.runs <|> lastFocus? b.runs).map Focus.run = b.runAt? t := by
  rw [runAt?, ← map_run_focus? none, ← map_run_lastFocus?]
  cases focus? b.order t none b.runs <;> rfl

theorem getFrame_keyFrameBefore_eq_bind :
    b.getFrame t .keyFrameBefore =
      (b.runAt? t).bind fun r => (⟨none, r, none⟩ : Focus F T).keyFrameBefore b.order t := by
  rw [← map_run_searched, Option.bind_map]
  rfl

theorem mem_runs_of_mem_runAt? (hr : r ∈ b.runAt? t) : r ∈ b.runs := by
  rcases Option.or_eq_some_iff.mp hr with hfind | ⟨-, hlast⟩
  · exact List.mem_of_find?_eq_some hfind
  · exact List.mem_of_getLast? hlast

theorem ascending_frames (hasc : b.order.Ascending b.toList) (hr : r ∈ b.runs) :
    b.order.Ascending r.frames :=
  hasc.of_sublist (List.sublist_flatten_of_mem (List.mem_map_of_mem hr))

/-- Whatever the buffer is like, the frame that is found is a key frame from `t` or before. -/
theorem isKeyFrame_of_mem_getFrame {f : F} (hf : f ∈ b.getFrame t .keyFrameBefore) :
    Frame.isKeyFrame f = true ∧ b.order.key f ≤ t := by
  rw [getFrame_keyFrameBefore_eq_bind] at hf
  obtain ⟨r, -, hr⟩ := Option.bind_eq_some_iff.mp hf
  unfold Focus.keyFrameBefore at hr
  dsimp only at hr
  split at hr
  · next g hfind =>
    split_ifs at hr with hle
    cases hr
    exact ⟨List.find?_some hfind, hle⟩
  · cases hr

theorem mem_toList_of_mem_getFrame {f : F} (hf : f ∈ b.getFrame t .keyFrameBefore) :
    f ∈ b.toList := by
  rw [getFrame_keyFrameBefore_eq_bind] at hf
  obtain ⟨r, hrun, hr⟩ := Option.bind_eq_some_iff.mp hf
  refine List.mem_flatMap_of_mem (mem_runs_of_mem_runAt? hrun) ?_
  unfold Focus.keyFrameBefore at hr
  dsimp only at hr
  split at hr
  · next g hfind =>
    split_ifs at hr
    cases hr
    have hg := List.mem_reverse.mp (List.mem_of_find?_eq_some hfind)
    split at hg
    · exact hg
    · split_ifs at hg <;> exact List.mem_of_mem_take hg
  · cases hr

section KeyFrameBefore

variable [LawfulMediaTime T]

omit [LawfulMediaTime T] in
theorem find?_keyFrame_of_forall_le {fs : List F} (hfs : ∀ g ∈ fs, order.key g ≤ t) :
    (match fs.find? Frame.isKeyFrame with
      | some g => if order.key g ≤ t then some g else none
      | none => none) =
      fs.find? fun g => Frame.isKeyFrame g && decide (order.key g ≤ t) := by
  induction fs with
  | nil => rfl
  | cons g fs ih =>
      obtain ⟨hg, hlater⟩ := List.forall_mem_cons.mp hfs
      by_cases hkey : Frame.isKeyFrame g
      · simp [hkey, hg]
      · simpa [hkey] using ih hlater

theorem find?_keyFrame_of_lt_forall {fs : List F} (hfs : ∀ g ∈ fs, t < order.key g) :
    fs.reverse.find? (fun g => Frame.isKeyFrame g && decide (order.key g ≤ t)) = none := by
  refine List.find?_eq_none.mpr fun g hg => ?_
  simpa using fun _ => not_le_of_lt (hfs g (List.mem_reverse.mp hg))

theorem Focus.keyFrameBefore_eq_find? {f : Focus F T} (hasc : order.Ascending f.run.frames)
    (ht : IsNumber t) :
    f.keyFrameBefore order t =
      f.run.frames.reverse.find? fun g => Frame.isKeyFrame g && decide (order.key g ≤ t) := by
  obtain ⟨below, rest, hsplit, hborder⟩ := hasc.exists_border ht
  have hbelow : ∀ g ∈ below, order.key g ≤ t := fun g hg => le_of_lt (hborder.below g hg)
  unfold Focus.keyFrameBefore
  simp only [hsplit, hborder.lowerBound]
  cases rest with
  | nil =>
      simp only [List.append_nil, List.getElem?_length]
      exact find?_keyFrame_of_forall_le fun g hg => hbelow g (List.mem_reverse.mp hg)
  | cons g rest =>
      have hg : t ≤ order.key g := hborder.rest g List.mem_cons_self
      have htail : order.Ascending (g :: rest) :=
        hasc.of_sublist (hsplit ▸ List.sublist_append_right _ _)
      have hlater : ∀ h ∈ rest, t < order.key h := fun h hh =>
        lt_of_le_of_lt hg (List.rel_of_pairwise_cons htail.pairwise hh)
      have hget : (below ++ g :: rest)[below.length]? = some g := by simp
      by_cases htg : t < order.key g
      · have hnone := find?_keyFrame_of_lt_forall (List.forall_mem_cons.mpr ⟨htg, hlater⟩)
        simp only [hget, htg, decide_true, Bool.and_true, List.reverse_append, List.find?_append,
          hnone, Option.none_or]
        cases below with
        | nil =>
            -- Every frame is after `t`; the first one is looked at all the same.
            by_cases hkey : Frame.isKeyFrame g <;> simp [hkey, not_le_of_lt htg]
        | cons a below =>
            have htake : (a :: below ++ g :: rest).take (a :: below).length = a :: below :=
              List.take_left
            simp only [List.length_cons, Nat.zero_lt_succ, decide_true, if_true] at htake ⊢
            rw [htake]
            exact find?_keyFrame_of_forall_le fun h hh => hbelow h (List.mem_reverse.mp hh)
      · have hle : order.key g ≤ t := le_of_not_lt ht (htail.isNumber g List.mem_cons_self) htg
        have hfound : ∀ h ∈ (below ++ [g]).reverse, order.key h ≤ t := by
          intro h hh
          rcases List.mem_append.mp (List.mem_reverse.mp hh) with hh | hh
          · exact hbelow h hh
          · exact (List.mem_singleton.mp hh) ▸ hle
        have htake : (below ++ g :: rest).take (below.length + 1) = below ++ [g] := by
          simp [List.take_append, List.take_of_length_le]
        rw [List.append_cons below g rest, List.reverse_append, List.find?_append,
          find?_keyFrame_of_lt_forall hlater, Option.none_or, ← List.append_cons]
        simp only [hget, htg, decide_false, Bool.and_false, Bool.false_eq_true, if_false, htake]
        exact find?_keyFrame_of_forall_le hfound

theorem getFrame_keyFrameBefore (hasc : b.order.Ascending b.toList) (ht : IsNumber t) :
    b.getFrame t .keyFrameBefore =
      (b.runAt? t).bind fun r =>
        r.frames.reverse.find? fun g => Frame.isKeyFrame g && decide (b.order.key g ≤ t) := by
  rw [getFrame_keyFrameBefore_eq_bind]
  refine Option.bind_congr fun r hr => ?_
  have hrun := ascending_frames hasc (mem_runs_of_mem_runAt? hr)
  exact Focus.keyFrameBefore_eq_find? (f := ⟨none, r, none⟩) hrun ht

theorem reverse_find?_eq_some_iff {fs : List F} {p : F → Bool} {f : F}
    (hasc : order.Ascending fs) :
    fs.reverse.find? p = some f ↔
      f ∈ fs ∧ p f = true ∧ ∀ g ∈ fs, p g = true → order.key g ≤ order.key f := by
  have hlast : ∀ f, fs.reverse.find? p = some f → ∀ g ∈ fs, p g = true →
      order.key g ≤ order.key f := by
    intro f hf g hg hpg
    obtain ⟨-, later, earlier, hsplit, hnone⟩ := List.find?_eq_some_iff_append.mp hf
    have hall : fs = earlier.reverse ++ f :: later.reverse := by
      rw [← List.reverse_reverse fs, hsplit]
      simp
    rw [hall] at hasc hg
    rcases List.mem_append.mp hg with hg | hg
    · exact le_of_lt ((List.pairwise_append.mp hasc.pairwise).2.2 g hg f List.mem_cons_self)
    · rcases List.mem_cons.mp hg with rfl | hg
      · exact hasc.isNumber g (by simp)
      · simpa [hpg] using hnone g (List.mem_reverse.mp hg)
  constructor
  · intro hf
    exact ⟨List.mem_reverse.mp (List.mem_of_find?_eq_some hf), List.find?_some hf, hlast f hf⟩
  · rintro ⟨hmem, hpf, hle⟩
    cases hfind : fs.reverse.find? p with
    | none => exact absurd hpf (List.find?_eq_none.mp hfind f (List.mem_reverse.mpr hmem))
    | some g =>
        have hg : g ∈ fs := List.mem_reverse.mp (List.mem_of_find?_eq_some hfind)
        have hgf : order.key g ≤ order.key f := hle g hg (List.find?_some hfind)
        have hfg : order.key f ≤ order.key g := hlast g hfind f hmem hpf
        rw [hasc.eq_of_key_le hg hmem hgf hfg]

/-- A run that begins at `t` or before is the one that is settled on if it ends at `t` or later, or
if no run follows it. -/
theorem mem_runAt?_iff {f : F} (hasc : b.order.Ascending b.toList) (hr : r ∈ b.runs)
    (hf : f ∈ r.frames) (hft : b.order.key f ≤ t) :
    r ∈ b.runAt? t ↔ r.endsFrom b.order t = true ∨ r ∈ b.runs.getLast? := by
  have hbefore : ∀ before after, b.runs = before ++ r :: after →
      ∀ s ∈ before, s.endsFrom b.order t = false := by
    intro before after hsplit s hs
    simp only [Run.endsFrom, Option.any_eq_false, decide_eq_false_iff_not]
    intro g hg
    have hpairwise := hasc.pairwise
    rw [toList, hsplit, List.flatMap_append, List.flatMap_cons] at hpairwise
    have hgf := (List.pairwise_append.mp hpairwise).2.2 g
      (List.mem_flatMap_of_mem hs (List.mem_of_getLast? hg)) f (List.mem_append_left _ hf)
    exact not_le_of_lt (lt_of_lt_of_le hgf hft)
  constructor
  · intro hrun
    rcases Option.or_eq_some_iff.mp hrun with hfind | ⟨-, hlast⟩
    · exact Or.inl (List.find?_some hfind)
    · exact Or.inr hlast
  · intro hrun
    cases hend : r.endsFrom b.order t with
    | true =>
        obtain ⟨before, after, hsplit⟩ := List.append_of_mem hr
        refine Option.or_eq_some_iff.mpr (Or.inl (List.find?_eq_some_iff_append.mpr ⟨hend, ?_⟩))
        exact ⟨before, after, hsplit, fun s hs => by simp [hbefore before after hsplit s hs]⟩
    | false =>
        have hlast : r ∈ b.runs.getLast? := hrun.resolve_left (by simp [hend])
        obtain ⟨before, hsplit⟩ := List.getLast?_eq_some_iff.mp hlast
        refine Option.or_eq_some_iff.mpr (Or.inr ⟨List.find?_eq_none.mpr fun s hs => ?_, hlast⟩)
        rw [hsplit] at hs
        rcases List.mem_append.mp hs with hs | hs
        · simp [hbefore before [] hsplit s hs]
        · simp [List.mem_singleton.mp hs, hend]

/-- A key frame is found if its run ends at `t` or later, or no run follows, and it is the last key
frame at `t` or before of that run. -/
theorem getFrame_keyFrameBefore_eq_some_iff {f : F} (hasc : b.order.Ascending b.toList)
    (hkey : Frame.isKeyFrame f = true) (hft : b.order.key f ≤ t) :
    b.getFrame t .keyFrameBefore = some f ↔
      ∃ r ∈ b.runs, f ∈ r.frames ∧ (r.endsFrom b.order t = true ∨ r ∈ b.runs.getLast?) ∧
        ∀ g ∈ r.frames, Frame.isKeyFrame g = true → b.order.key g ≤ t →
          b.order.key g ≤ b.order.key f := by
  have hfind : ∀ r ∈ b.runs, (r.frames.reverse.find? fun g =>
      Frame.isKeyFrame g && decide (b.order.key g ≤ t)) = some f ↔ f ∈ r.frames ∧
        ∀ g ∈ r.frames, Frame.isKeyFrame g = true → b.order.key g ≤ t →
          b.order.key g ≤ b.order.key f := by
    intro r hr
    rw [reverse_find?_eq_some_iff (ascending_frames hasc hr)]
    simp [hkey, hft]
  rw [getFrame_keyFrameBefore hasc (isNumber_of_le hft).2, Option.bind_eq_some_iff]
  constructor
  · rintro ⟨r, hrun, hr⟩
    have hmem := mem_runs_of_mem_runAt? hrun
    obtain ⟨hf, hlast⟩ := (hfind r hmem).mp hr
    exact ⟨r, hmem, hf, (mem_runAt?_iff hasc hmem hf hft).mp hrun, hlast⟩
  · rintro ⟨r, hmem, hf, hreach, hlast⟩
    exact ⟨r, (mem_runAt?_iff hasc hmem hf hft).mpr hreach, (hfind r hmem).mpr ⟨hf, hlast⟩⟩

end KeyFrameBefore

end FrameBuffer

end MediaPipeline
