import MediaPipeline.Proofs.FrameBuffer.LatestKeyFrame
import MediaPipeline.Proofs.Time.Differences

/-!
# The nearest frame

A time splits the frames into those in front of it and the others. The search for the frame near the
time compares the last one in front with the first one from there on, wherever the borders of the
runs are. Of these two it takes the closer one, and with it the closest of all if the ends of the
frames are in the order of the keys. A later time never gives an earlier frame.
-/

namespace MediaPipeline

open MediaTime LawfulMediaTime LawfulDifferences

namespace FrameOrder

variable {F T : Type} [Frame F T] [MediaTime T]

/-- The closer one of a frame in front of a time and one from there on. The distance to the first is
measured from its end, and a frame at the time itself is always closer. -/
def closer (order : FrameOrder) (t : T) (p n : F) : F :=
  if t - order.key p - Frame.duration p < order.key n - t && order.key n - t != 0 then p else n

/-- The choice where there may be no frame on one of the sides. -/
def closest? (order : FrameOrder) (t : T) : Option F → Option F → Option F
  | p, none => p
  | none, some n => some n
  | some p, some n => some (order.closer t p n)

def keyEnd (order : FrameOrder) (f : F) : T := order.key f + Frame.duration f

/-- How far a time is from a frame, on whichever side; zero within the frame. -/
def distance (order : FrameOrder) (t : T) (f : F) : T :=
  later 0 (later (order.key f - t) (t - order.keyEnd f))

/-- No frame is closer to the time, and the time is within the frame if it is within any, with the
frame's end or without it. -/
structure IsNearest (order : FrameOrder) (t : T) (fs : List F) (f : F) : Prop where
  mem : f ∈ fs
  least : ∀ g ∈ fs, order.distance t f ≤ order.distance t g
  touches : ∀ g ∈ fs, order.key g ≤ t → t ≤ order.keyEnd g →
    order.key f ≤ t ∧ t ≤ order.keyEnd f
  contains : ∀ g ∈ fs, order.key g ≤ t → t < order.keyEnd g →
    order.key f ≤ t ∧ t < order.keyEnd f

end FrameOrder

namespace FrameBuffer

variable {F T : Type} [Frame F T] [MediaTime T] {order : FrameOrder} {t u : T} {r : Run F T}
  {rs : List (Run F T)} {b : FrameBuffer F T} {f : Focus F T}

/-! ## The run that is searched -/

theorem exists_split_of_focus? {prev : Option (Run F T)} (hf : focus? order t prev rs = some f) :
    ∃ before after, rs = before ++ f.run :: after ∧ f.prev = before.getLast?.or prev ∧
      f.run.endsFrom order t = true ∧ ∀ s ∈ before, s.endsFrom order t = false := by
  induction rs generalizing prev with
  | nil => cases hf
  | cons r rs ih =>
      unfold focus? at hf
      split_ifs at hf with hend
      · cases hf
        exact ⟨[], rs, rfl, rfl, hend, by simp⟩
      · obtain ⟨before, after, rfl, hprev, hrun, hbefore⟩ := ih hf
        refine ⟨r :: before, after, rfl, ?_, hrun, ?_⟩
        · rw [hprev, List.getLast?_cons]
          cases before.getLast? <;> rfl
        · exact List.forall_mem_cons.mpr ⟨Bool.eq_false_iff.mpr hend, hbefore⟩

omit [Frame F T] [MediaTime T] in
theorem exists_split_of_lastFocus? (hf : lastFocus? rs = some f) :
    ∃ before, rs = before ++ [f.run] ∧ f.prev = before.getLast? := by
  induction rs generalizing f with
  | nil => cases hf
  | cons r rs ih =>
      cases rs with
      | nil =>
          cases hf
          exact ⟨[], rfl, rfl⟩
      | cons next rs =>
          unfold lastFocus? at hf
          split at hf
          · next g hg =>
            cases hf
            obtain ⟨before, hsplit, hprev⟩ := ih hg
            refine ⟨r :: before, by rw [hsplit]; rfl, ?_⟩
            rw [hprev, List.getLast?_cons]
            cases before.getLast? <;> rfl
          · cases hf

/-- The search settles on the first run that ends at the time or later, else on the last run. -/
theorem exists_split_of_searched
    (hf : (focus? b.order t none b.runs <|> lastFocus? b.runs) = some f) :
    ∃ before after, b.runs = before ++ f.run :: after ∧ f.prev = before.getLast? ∧
      (∀ s ∈ before, s.endsFrom b.order t = false) ∧
      (f.run.endsFrom b.order t = false → after = []) := by
  cases hfocus : focus? b.order t none b.runs with
  | some g =>
      rw [hfocus] at hf
      cases hf
      obtain ⟨before, after, hsplit, hprev, hend, hbefore⟩ := exists_split_of_focus? hfocus
      rw [Option.or_none] at hprev
      exact ⟨before, after, hsplit, hprev, hbefore, fun hnot => by simp [hend] at hnot⟩
  | none =>
      rw [hfocus] at hf
      obtain ⟨before, hsplit, hprev⟩ := exists_split_of_lastFocus? hf
      have hnone := List.find?_eq_none.mp ((map_run_focus? none).symm.trans (by rw [hfocus]; rfl))
      refine ⟨before, [], hsplit, hprev, fun s hs => ?_, fun _ => rfl⟩
      simpa using hnone s (hsplit ▸ List.mem_append_left _ hs)

theorem runs_eq_nil_of_searched
    (hf : (focus? b.order t none b.runs <|> lastFocus? b.runs) = none) : b.runs = [] := by
  have hrun : b.runAt? t = none := by rw [← map_run_searched, hf]; rfl
  exact List.getLast?_eq_none_iff.mp (Option.or_eq_none_iff.mp hrun).2

/-! ## The frame that is found -/

omit [Frame F T] [MediaTime T] in
theorem getLast?_flatMap_frames (hne : ∀ r ∈ rs, r.frames ≠ []) :
    (rs.flatMap Run.frames).getLast? = rs.getLast?.bind (·.frames.getLast?) := by
  cases hlast : rs.getLast? with
  | none => rw [List.getLast?_eq_none_iff.mp hlast]; rfl
  | some r =>
      obtain ⟨init, rfl⟩ := List.getLast?_eq_some_iff.mp hlast
      have hr : r.frames ≠ [] := hne r (by simp)
      simp [List.getLast?_append, List.getLast?_eq_some_getLast hr]

section Found

variable [LawfulMediaTime T]

theorem Focus.near_eq_closest? {below rest : List F} (hsplit : f.run.frames = below ++ rest)
    (hborder : order.Border t below rest) (hne : f.run.frames ≠ []) :
    f.near order t =
      order.closest? t (below.getLast?.or (f.prev.bind (·.frames.getLast?))) rest.head? := by
  unfold Focus.near
  simp only [hsplit, hborder.lowerBound]
  cases rest with
  | nil =>
      rw [hsplit, List.append_nil] at hne
      simp [FrameOrder.closest?, List.getLast?_eq_some_getLast hne]
  | cons n rest =>
      have hget : (below ++ n :: rest)[below.length]? = some n := by simp
      simp only [hget]
      rcases List.eq_nil_or_concat below with rfl | ⟨init, p, rfl⟩
      · cases f.prev.bind (·.frames.getLast?) with
        | none => simp [FrameOrder.closest?]
        | some p => simp [FrameOrder.closest?, FrameOrder.closer]
      · have hbefore : (init ++ [p] ++ n :: rest)[(init ++ [p]).length - 1]? = some p := by simp
        simp [FrameOrder.closest?, FrameOrder.closer]

/-- The search for the frame near a time comes down to the two frames at the border. -/
theorem exists_border_near (hne : ∀ r ∈ b.runs, r.frames ≠ [])
    (hasc : b.order.Ascending b.toList) (ht : IsNumber t) :
    ∃ below rest, b.toList = below ++ rest ∧ b.order.Border t below rest ∧
      b.getFrame t .near = b.order.closest? t below.getLast? rest.head? := by
  cases hsearch : focus? b.order t none b.runs <|> lastFocus? b.runs with
  | none =>
      have hruns := runs_eq_nil_of_searched hsearch
      refine ⟨[], [], by simp [toList, hruns], ⟨by simp, by simp⟩, ?_⟩
      rw [getFrame, hsearch]
      rfl
  | some f =>
      obtain ⟨before, after, hruns, hprev, hbefore, hafter⟩ := exists_split_of_searched hsearch
      have hall : b.toList =
          before.flatMap Run.frames ++ (f.run.frames ++ after.flatMap Run.frames) := by
        rw [toList, hruns, List.flatMap_append, List.flatMap_cons]
      have hmem : f.run ∈ b.runs := by simp [hruns]
      have hmem_before : ∀ s ∈ before, s ∈ b.runs := fun s hs => by simp [hruns, hs]
      have hrun := ascending_frames hasc hmem
      obtain ⟨below, rest, hsplit, hborder⟩ := hrun.exists_border ht
      have hend : rest = [] → after = [] := by
        rintro rfl
        refine hafter (Bool.eq_false_iff.mpr fun hend => ?_)
        obtain ⟨g, hg, hle⟩ := (endsFrom_iff hrun).mp hend
        exact not_le_of_lt (hborder.below g (by simpa [hsplit] using hg)) hle
      refine ⟨before.flatMap Run.frames ++ below, rest ++ after.flatMap Run.frames, ?_,
        ⟨?_, ?_⟩, ?_⟩
      · rw [hall, hsplit]
        simp
      · intro g hg
        rcases List.mem_append.mp hg with hg | hg
        · obtain ⟨s, hs, hgs⟩ := List.mem_flatMap.mp hg
          have hsasc := ascending_frames hasc (hmem_before s hs)
          refine lt_of_not_le (hsasc.isNumber g hgs) ht fun hle => ?_
          exact Bool.eq_false_iff.mp (hbefore s hs) ((endsFrom_iff hsasc).mpr ⟨g, hgs, hle⟩)
        · exact hborder.below g hg
      · intro g hg
        rcases List.mem_append.mp hg with hg | hg
        · exact hborder.rest g hg
        · have hreach : f.run.endsFrom b.order t = true := by
            by_contra hnot
            simp [hafter (Bool.eq_false_iff.mpr hnot)] at hg
          obtain ⟨last, hlast, hle⟩ := (endsFrom_iff hrun).mp hreach
          have hpairwise := hasc.pairwise
          rw [hall] at hpairwise
          have htail := (List.pairwise_append.mp hpairwise).2.1
          exact le_trans hle (le_of_lt ((List.pairwise_append.mp htail).2.2 last hlast g hg))
      · rw [getFrame, hsearch, Option.bind_some,
          f.near_eq_closest? hsplit hborder (hne f.run hmem), List.getLast?_append,
          getLast?_flatMap_frames fun s hs => hne s (hmem_before s hs), ← hprev]
        cases rest with
        | nil => simp [hend rfl]
        | cons n rest => rfl

end Found

/-- Whatever the keys and the time are like, a frame is found. -/
theorem Focus.exists_near (order : FrameOrder) (t : T) (hne : f.run.frames ≠ [])
    (hprev : ∀ r ∈ f.prev, r.frames ≠ []) :
    ∃ g, f.near order t = some g ∧ (g ∈ f.run.frames ∨ ∃ r ∈ f.prev, g ∈ r.frames) := by
  unfold Focus.near
  dsimp only
  split
  · exact ⟨_, List.getLast?_eq_some_getLast hne, Or.inl (List.getLast_mem hne)⟩
  · next n hn =>
    have hprevious : ∃ p, (if 0 < order.lowerBound f.run.frames t then
          f.run.frames[order.lowerBound f.run.frames t - 1]?
        else (f.prev.bind (·.frames.getLast?)) <|> some n) = some p ∧
        (p ∈ f.run.frames ∨ ∃ r ∈ f.prev, p ∈ r.frames) := by
      split_ifs with hi
      · obtain ⟨hlt, -⟩ := List.getElem?_eq_some_iff.mp hn
        have hget := List.getElem?_eq_getElem (show order.lowerBound f.run.frames t - 1 <
          f.run.frames.length by omega)
        exact ⟨_, hget, Or.inl (List.getElem_mem _)⟩
      · cases hp : f.prev with
        | none => exact ⟨n, rfl, Or.inl (List.mem_of_getElem? hn)⟩
        | some r =>
            have hr := hprev r hp
            refine ⟨r.frames.getLast hr, ?_, Or.inr ⟨r, rfl, List.getLast_mem hr⟩⟩
            simp [List.getLast?_eq_some_getLast hr]
    obtain ⟨p, hp, hmem⟩ := hprevious
    rw [hp]
    refine ⟨_, rfl, ?_⟩
    dsimp only
    split_ifs
    · exact hmem
    · exact Or.inl (List.mem_of_getElem? hn)

theorem exists_near (t : T) (hne : ∀ r ∈ b.runs, r.frames ≠ []) (hlist : b.toList ≠ []) :
    ∃ f, b.getFrame t .near = some f ∧ f ∈ b.toList := by
  cases hsearch : focus? b.order t none b.runs <|> lastFocus? b.runs with
  | none => exact absurd (by simp [toList, runs_eq_nil_of_searched hsearch]) hlist
  | some f =>
      obtain ⟨before, after, hsplit, hprev, -, -⟩ := exists_split_of_searched hsearch
      have hmem : f.run ∈ b.runs := by simp [hsplit]
      have hmem_prev : ∀ r ∈ f.prev, r ∈ b.runs := by
        intro r hr
        rw [hprev] at hr
        simp [hsplit, List.mem_of_getLast? hr]
      obtain ⟨g, hg, hplace⟩ :=
        f.exists_near b.order t (hne _ hmem) fun r hr => hne r (hmem_prev r hr)
      refine ⟨g, by rw [getFrame, hsearch, Option.bind_some, hg], ?_⟩
      rcases hplace with hg | ⟨r, hr, hg⟩
      · exact List.mem_flatMap_of_mem hmem hg
      · exact List.mem_flatMap_of_mem (hmem_prev r hr) hg

end FrameBuffer

/-! ## Later times -/

namespace FrameOrder

variable {F T : Type} [Frame F T] [MediaTime T] [LawfulMediaTime T] [LawfulDifferences T]
  {order : FrameOrder} {t u : T} {p n : F}

omit [LawfulMediaTime T] [LawfulDifferences T] in
theorem closer_eq_or (t : T) (p n : F) : order.closer t p n = p ∨ order.closer t p n = n := by
  unfold closer
  split_ifs
  · exact Or.inl rfl
  · exact Or.inr rfl

omit [LawfulMediaTime T] [LawfulDifferences T] in
theorem eq_or_eq_of_closest? {p n : Option F} {f : F} (hf : order.closest? t p n = some f) :
    p = some f ∨ n = some f := by
  match p, n with
  | p, none => exact Or.inl hf
  | none, some n => exact Or.inr hf
  | some p, some n =>
      cases hf
      exact (closer_eq_or t p n).imp (congrArg some ·.symm) (congrArg some ·.symm)

/-- As the time grows, the distance to the frame in front grows and the one to the next frame falls,
so that the choice changes from the first to the second at most once. -/
theorem closer_of_le (htu : t ≤ u) (hp : order.key p < t) (hn : u ≤ order.key n) :
    order.closer t p n = p ∨ order.closer u p n = n := by
  by_cases hu : (u - order.key p - Frame.duration p < order.key n - u &&
      order.key n - u != 0) = true
  · left
    simp only [Bool.and_eq_true, decide_eq_true_eq, bne, Bool.not_eq_true'] at hu
    obtain ⟨hfront, hnext⟩ := isNumber_of_le (le_of_lt hu.1)
    obtain ⟨hsub, hduration⟩ := isNumber_of_sub hfront
    obtain ⟨hlow, hkey⟩ := isNumber_of_le (le_of_lt hp)
    have hbound : negInf < t := lt_of_le_of_lt (negInf_le hlow) hp
    have hsub' := isNumber_sub_of_le hbound htu hsub
    have hsteps : t - order.key p ≤ u - order.key p := sub_le_sub htu hlow hsub' hsub
    have hgrown := sub_le_sub hsteps hduration
      (isNumber_sub_of_le (negInf_lt_sub hp) hsteps hfront) hfront
    have hfallen := sub_le_sub (isNumber_of_sub hnext).1 htu hnext
      (isNumber_sub_of_ge hbound htu hnext)
    have hless := lt_of_lt_of_le (lt_of_le_of_lt hgrown hu.1) hfallen
    have hnonneg : 0 ≤ order.key n - u :=
      sub_nonneg hn (lt_of_le_of_lt (negInf_le hfront) hu.1)
    have hgap : (order.key n - t == 0) = false := by
      refine Bool.eq_false_iff.mpr fun hzero => Bool.eq_false_iff.mp hu.2 ?_
      exact beq_iff.mpr ⟨le_trans hfallen (beq_iff.mp hzero).1, hnonneg⟩
    exact if_pos (by simp [hless, hgap, bne])
  · exact Or.inr (if_neg hu)

/-- The same two frames, compared at two times between them. -/
theorem key_closest?_mono {p n : Option F} {f g : F} (htu : t ≤ u)
    (hp : ∀ x ∈ p, order.key x < t) (hn : ∀ x ∈ n, u ≤ order.key x)
    (hf : order.closest? t p n = some f) (hg : order.closest? u p n = some g) :
    f = g ∨ order.key f < order.key g := by
  match p, n with
  | p, none => exact Or.inl (Option.some.inj (hf.symm.trans hg))
  | none, some n => exact Or.inl (Option.some.inj (hf.symm.trans hg))
  | some p, some n =>
      cases hf
      cases hg
      have hpn : order.key p < order.key n := lt_of_lt_of_le (hp p rfl) (le_trans htu (hn n rfl))
      rcases closer_of_le htu (hp p rfl) (hn n rfl) with h | h <;> rw [h]
      · exact (closer_eq_or u p n).imp (·.symm) fun h => by rwa [h]
      · rcases closer_eq_or t p n with h | h <;> rw [h]
        · exact Or.inr hpn
        · exact Or.inl rfl

end FrameOrder

namespace FrameBuffer

variable {F T : Type} [Frame F T] [MediaTime T] [LawfulMediaTime T] [LawfulDifferences T]
  {t u : T} {b : FrameBuffer F T}

omit [LawfulDifferences T] in
/-- Between two times there is a part of the frames that only the later one has in front. -/
theorem exists_between {order : FrameOrder} {fs below rest below' rest' : List F} (htu : t ≤ u)
    (hfs : fs = below ++ rest) (hfs' : fs = below' ++ rest')
    (hborder : order.Border t below rest) (hborder' : order.Border u below' rest') :
    ∃ mid, below' = below ++ mid ∧ rest = mid ++ rest' := by
  rcases List.append_eq_append_iff.mp (hfs.symm.trans hfs') with ⟨mid, h, h'⟩ | ⟨mid, h, h'⟩
  · exact ⟨mid, h, h'⟩
  · cases mid with
    | nil => exact ⟨[], by simpa using h.symm, by simpa using h'.symm⟩
    | cons g mid =>
        have hlt : order.key g < t := hborder.below g (by simp [h])
        have hle : u ≤ order.key g := hborder'.rest g (by simp [h'])
        exact absurd (le_trans htu hle) (not_le_of_lt hlt)

theorem key_near_mono (hb : b.Sorted) (hne : b.toList ≠ []) (htu : t ≤ u) :
    ∃ f g, b.getFrame t .near = some f ∧ b.getFrame u .near = some g ∧
      (f = g ∨ b.order.key f < b.order.key g) := by
  obtain ⟨f, hf, hmem⟩ := exists_near t hb.1 hne
  obtain ⟨g, hg, hmem'⟩ := exists_near u hb.1 hne
  refine ⟨f, g, hf, hg, ?_⟩
  rcases FrameOrder.ascending_or_eq_singleton hb.2 with hasc | ⟨x, hlist, -⟩
  · obtain ⟨ht, hu⟩ := isNumber_of_le htu
    obtain ⟨below, rest, hsplit, hborder, hnear⟩ := exists_border_near hb.1 hasc ht
    obtain ⟨below', rest', hsplit', hborder', hnear'⟩ := exists_border_near hb.1 hasc hu
    obtain ⟨mid, rfl, rfl⟩ := exists_between htu hsplit hsplit' hborder hborder'
    rw [hnear] at hf
    rw [hnear'] at hg
    cases mid with
    | nil =>
        rw [List.append_nil] at hg
        refine FrameOrder.key_closest?_mono htu (fun x hx => ?_) (fun x hx => ?_) hf hg
        · exact hborder.below x (List.mem_of_getLast? hx)
        · exact hborder'.rest x (List.mem_of_head? hx)
    | cons a mid =>
        have hpairwise := hasc.pairwise
        rw [hsplit] at hpairwise
        obtain ⟨-, hrest, hbelow⟩ := List.pairwise_append.mp hpairwise
        have hga : g = a ∨ g ∈ mid ++ rest' := by
          rw [List.getLast?_append_cons] at hg
          rcases FrameOrder.eq_or_eq_of_closest? hg with hlast | hhead
          · rcases List.mem_cons.mp (List.mem_of_getLast? hlast) with rfl | hmid
            · exact Or.inl rfl
            · exact Or.inr (List.mem_append_left _ hmid)
          · exact Or.inr (List.mem_append_right _ (List.mem_of_head? hhead))
        have hmem : g ∈ a :: mid ++ rest' := by simpa using hga
        rcases FrameOrder.eq_or_eq_of_closest? hf with hlast | hhead
        · exact Or.inr (hbelow f (List.mem_of_getLast? hlast) g hmem)
        · cases hhead
          rcases hga with rfl | hg
          · exact Or.inl rfl
          · exact Or.inr ((List.pairwise_cons.mp hrest).1 g hg)
  · rw [hlist, List.mem_singleton] at hmem hmem'
    exact Or.inl (hmem.trans hmem'.symm)

end FrameBuffer

/-! ## The closest of all -/

namespace FrameOrder

variable {F : Type} [Frame F ExactTime] {order : FrameOrder} {t d : ExactTime}
  {fs below rest : List F} {f g p n : F}

theorem distance_le_iff :
    order.distance t f ≤ d ↔ 0 ≤ d ∧ order.key f - t ≤ d ∧ t - order.keyEnd f ≤ d := by
  rw [distance, later_le_iff (ExactTime.refl _) (ExactTime.refl _),
    later_le_iff (ExactTime.refl _) (ExactTime.refl _)]

theorem le_distance (order : FrameOrder) (t : ExactTime) (f : F) :
    0 ≤ order.distance t f ∧ order.key f - t ≤ order.distance t f ∧
      t - order.keyEnd f ≤ order.distance t f :=
  distance_le_iff.mp (ExactTime.refl _)

theorem distance_le_zero_iff (ht : isFinite t = true) :
    order.distance t f ≤ 0 ↔ order.key f ≤ t ∧ t ≤ order.keyEnd f := by
  rw [distance_le_iff, ExactTime.sub_nonpos_iff (Or.inr ht), ExactTime.sub_nonpos_iff (Or.inl ht)]
  exact and_iff_right (ExactTime.refl 0)

/-- Frames that end in their order: each begins at a finite time, lasts for a time that is not
negative, and ends no later than the frames behind it. -/
structure Successive (order : FrameOrder) (fs : List F) : Prop where
  isFinite : ∀ f ∈ fs, isFinite (order.key f) = true
  duration_nonneg : ∀ f ∈ fs, 0 ≤ (Frame.duration f : ExactTime)
  ends : fs.Pairwise fun f g => order.keyEnd f ≤ order.keyEnd g

theorem Successive.keyEnd_le_getLast (hfs : order.Successive (below ++ rest))
    (hp : p ∈ below.getLast?) (hg : g ∈ below) : order.keyEnd g ≤ order.keyEnd p := by
  obtain ⟨init, rfl⟩ := List.getLast?_eq_some_iff.mp hp
  rcases List.mem_append.mp hg with hg | hg
  · have hbelow := (List.pairwise_append.mp hfs.ends).1
    exact (List.pairwise_append.mp hbelow).2.2 g hg p List.mem_cons_self
  · rw [List.mem_singleton.mp hg]
    exact ExactTime.refl _

theorem Ascending.key_head_le (hasc : order.Ascending (below ++ rest)) (hn : n ∈ rest.head?)
    (hg : g ∈ rest) : order.key n ≤ order.key g := by
  obtain ⟨tail, rfl⟩ := List.head?_eq_some_iff.mp hn
  rcases List.mem_cons.mp hg with rfl | hg
  · exact ExactTime.refl _
  · have hrest := hasc.of_sublist (List.sublist_append_right below _)
    exact le_of_lt (List.rel_of_pairwise_cons hrest.pairwise hg)

/-- The last frame in front of the time is the closest one if it is no further than the next. -/
theorem Successive.least_front (hfs : order.Successive (below ++ rest))
    (hasc : order.Ascending (below ++ rest)) (hborder : order.Border t below rest)
    (ht : MediaTime.isFinite t = true)
    (hp : p ∈ below.getLast?) (hnext : ∀ n ∈ rest.head?, t - order.keyEnd p ≤ order.key n - t)
    (hg : g ∈ below ++ rest) : order.distance t p ≤ order.distance t g := by
  obtain ⟨hnonneg, hkey, hend⟩ := le_distance order t g
  have hbefore : order.key p ≤ t := le_of_lt (hborder.below p (List.mem_of_getLast? hp))
  have hzero : order.key p - t ≤ 0 := (ExactTime.sub_nonpos_iff (Or.inr ht)).mpr hbefore
  refine distance_le_iff.mpr ⟨hnonneg, le_trans hzero hnonneg, ?_⟩
  rcases List.mem_append.mp hg with hg | hg
  · have hends := hfs.keyEnd_le_getLast hp hg
    exact le_trans (ExactTime.sub_le_sub (ExactTime.refl t) hends) hend
  · have hn := List.head?_eq_some_head (List.ne_nil_of_mem hg)
    have hkeys := hasc.key_head_le hn hg
    exact le_trans (hnext _ hn) (le_trans (ExactTime.sub_le_sub hkeys (ExactTime.refl t)) hkey)

/-- The next frame is the closest one if it is no further than the last one in front. -/
theorem Successive.least_next (hfs : order.Successive (below ++ rest))
    (hasc : order.Ascending (below ++ rest)) (hborder : order.Border t below rest)
    (ht : MediaTime.isFinite t = true)
    (hn : n ∈ rest.head?)
    (hfront : ∀ p ∈ below.getLast?, order.key n - t ≤ 0 ∨ order.key n - t ≤ t - order.keyEnd p)
    (hg : g ∈ below ++ rest) : order.distance t n ≤ order.distance t g := by
  obtain ⟨hnonneg, hkey, hend⟩ := le_distance order t g
  have hmem : n ∈ rest := List.mem_of_head? hn
  have hafter : t ≤ order.keyEnd n :=
    le_trans (hborder.rest n hmem)
      (ExactTime.le_add_of_nonneg (hfs.duration_nonneg n (List.mem_append_right _ hmem)) _)
  have hzero : t - order.keyEnd n ≤ 0 := (ExactTime.sub_nonpos_iff (Or.inl ht)).mpr hafter
  refine distance_le_iff.mpr ⟨hnonneg, ?_, le_trans hzero hnonneg⟩
  rcases List.mem_append.mp hg with hg | hg
  · have hp := List.getLast?_eq_some_getLast (List.ne_nil_of_mem hg)
    have hends := hfs.keyEnd_le_getLast hp hg
    rcases hfront _ hp with hgap | hgap
    · exact le_trans hgap hnonneg
    · exact le_trans hgap (le_trans (ExactTime.sub_le_sub (ExactTime.refl t) hends) hend)
  · exact le_trans (ExactTime.sub_le_sub (hasc.key_head_le hn hg) (ExactTime.refl t)) hkey

/-- The frame in front is taken if it is closer and the next one does not begin at the time. -/
theorem closest?_cases (hborder : order.Border t below rest) (ht : MediaTime.isFinite t = true)
    (hfinite : ∀ p ∈ below, MediaTime.isFinite (order.key p) = true)
    (hf : order.closest? t below.getLast? rest.head? = some f) :
    (f ∈ below.getLast? ∧ ∀ n ∈ rest.head?,
        t - order.keyEnd f < order.key n - t ∧ t < order.key n) ∨
      (f ∈ rest.head? ∧ ∀ p ∈ below.getLast?,
        order.key f - t ≤ 0 ∨ order.key f - t ≤ t - order.keyEnd p) := by
  cases hp : below.getLast? with
  | none =>
      right
      cases hn : rest.head? with
      | none => simp [hp, hn, closest?] at hf
      | some n =>
          rw [hp, hn] at hf
          exact ⟨hf, by simp⟩
  | some p =>
      cases hn : rest.head? with
      | none =>
          rw [hp, hn] at hf
          exact Or.inl ⟨hf, by simp⟩
      | some n =>
          rw [hp, hn] at hf
          cases hf
          have hsub := ExactTime.sub_sub_of_isFinite (hfinite p (List.mem_of_getLast? hp)) t
            (Frame.duration p)
          have hnext : t ≤ order.key n := hborder.rest n (List.mem_of_head? hn)
          have hzero : (order.key n - t == 0) = true ↔ order.key n ≤ t := by
            rw [beq_iff, ExactTime.sub_nonpos_iff (Or.inr ht)]
            refine and_iff_left ?_
            rw [← ExactTime.sub_self_of_isFinite ht]
            exact ExactTime.sub_le_sub hnext (ExactTime.refl t)
          simp only [closer, hsub, Bool.and_eq_true, decide_eq_true_eq, bne, Bool.not_eq_true',
            Bool.eq_false_iff, ne_eq, hzero]
          split_ifs with hcloser
          · left
            refine ⟨rfl, fun m hm => ?_⟩
            cases hm
            exact ⟨hcloser.1, lt_iff.mpr ⟨hnext, hcloser.2⟩⟩
          · right
            refine ⟨rfl, fun q hq => ?_⟩
            cases hq
            by_cases hat : order.key n ≤ t
            · exact Or.inl ((ExactTime.sub_nonpos_iff (Or.inr ht)).mpr hat)
            · refine Or.inr (le_of_not_lt (ExactTime.refl _) (ExactTime.refl _) ?_)
              exact fun hlt => hcloser ⟨hlt, hat⟩

theorem Successive.isNearest (hfs : order.Successive (below ++ rest))
    (hasc : order.Ascending (below ++ rest)) (hborder : order.Border t below rest)
    (ht : MediaTime.isFinite t = true)
    (hf : order.closest? t below.getLast? rest.head? = some f) :
    order.IsNearest t (below ++ rest) f := by
  have hfinite : ∀ p ∈ below, MediaTime.isFinite (order.key p) = true :=
    fun p hp => hfs.isFinite p (List.mem_append_left _ hp)
  have hcases := closest?_cases hborder ht hfinite hf
  have hleast : ∀ g ∈ below ++ rest, order.distance t f ≤ order.distance t g := by
    intro g hg
    rcases hcases with ⟨hmem, hnext⟩ | ⟨hmem, hfront⟩
    · exact hfs.least_front hasc hborder ht hmem (fun n hn => le_of_lt (hnext n hn).1) hg
    · exact hfs.least_next hasc hborder ht hmem hfront hg
  have htouches : ∀ g ∈ below ++ rest, order.key g ≤ t → t ≤ order.keyEnd g →
      order.key f ≤ t ∧ t ≤ order.keyEnd f := by
    intro g hg hkey hend
    have hzero := (distance_le_zero_iff ht).mpr ⟨hkey, hend⟩
    exact (distance_le_zero_iff ht).mp (le_trans (hleast g hg) hzero)
  have hmem : f ∈ below ++ rest := by
    rcases hcases with ⟨hmem, -⟩ | ⟨hmem, -⟩
    · exact List.mem_append_left _ (List.mem_of_getLast? hmem)
    · exact List.mem_append_right _ (List.mem_of_head? hmem)
  refine ⟨hmem, hleast, htouches, fun g hg hkey hend => ?_⟩
  obtain ⟨hbefore, -⟩ := htouches g hg hkey (le_of_lt hend)
  refine ⟨hbefore, ?_⟩
  rcases List.mem_append.mp hg with hg | hg
  · -- The frame that is taken ends no earlier than the one that holds the time.
    have hends : order.keyEnd g ≤ order.keyEnd f := by
      rcases hcases with ⟨hlast, -⟩ | ⟨hhead, -⟩
      · exact hfs.keyEnd_le_getLast hlast hg
      · exact (List.pairwise_append.mp hfs.ends).2.2 g hg f (List.mem_of_head? hhead)
    exact lt_of_lt_of_le hend hends
  · -- The time is the key of the first frame from there on, and that frame is taken.
    have hn := List.head?_eq_some_head (List.ne_nil_of_mem hg)
    have hkeys := le_trans (hasc.key_head_le hn hg) hkey
    rcases hcases with ⟨-, hnext⟩ | ⟨hhead, -⟩
    · exact absurd hkeys (not_le_of_lt (hnext _ hn).2)
    · obtain ⟨tail, rfl⟩ := List.head?_eq_some_iff.mp hhead
      rcases List.mem_cons.mp hg with rfl | hg
      · exact hend
      · have hrest := hasc.of_sublist (List.sublist_append_right below _)
        have hlater := lt_of_le_of_lt (hborder.rest f List.mem_cons_self)
          (List.rel_of_pairwise_cons hrest.pairwise hg)
        exact absurd hkey (not_le_of_lt hlater)

end FrameOrder

namespace FrameBuffer

/-- Of frames that follow one another the nearest one is found, and whatever the lengths of the
frames and the rounding are like, a later time never gives an earlier frame. -/
theorem near_is_nearest_and_monotone :
    (∀ {F : Type} [Frame F ExactTime] (b : FrameBuffer F ExactTime) (t : ExactTime),
      b.Sorted → b.toList ≠ [] → b.order.Successive b.toList → isFinite t = true →
        ∃ f, b.getFrame t .near = some f ∧ b.order.IsNearest t b.toList f) ∧
    ∀ {F T : Type} [Frame F T] [MediaTime T] [LawfulMediaTime T] [LawfulDifferences T]
      (b : FrameBuffer F T) (t u : T), b.Sorted → b.toList ≠ [] → t ≤ u →
        ∃ f g, b.getFrame t .near = some f ∧ b.getFrame u .near = some g ∧
          (f = g ∨ b.order.key f < b.order.key g) := by
  refine ⟨?_, ?_⟩
  · intro F _ b t hb hne hfs ht
    have hasc : b.order.Ascending b.toList :=
      ⟨fun f hf => isNumber_of_isFinite (hfs.isFinite f hf), hb.2⟩
    obtain ⟨below, rest, hsplit, hborder, hnear⟩ :=
      exists_border_near hb.1 hasc (isNumber_of_isFinite ht)
    obtain ⟨f, hf, -⟩ := exists_near t hb.1 hne
    rw [hsplit] at hasc hfs ⊢
    exact ⟨f, hf, hfs.isNearest hasc hborder ht (hnear ▸ hf)⟩
  · intro F T _ _ _ _ b t u hb hne htu
    exact key_near_mono hb hne htu

def slide (t d : ℚ) : EncodedFrame ExactTime where
  pts := .finite t
  dts := .finite t
  duration := .finite d
  isKeyFrame := true
  stream := .video 0 "h264" 1 1
  data := []
  encryption := none

/-- Two slides one after the other, and much later two more, of which the first is shown for no
time. -/
def slides : EncodedBuffer ExactTime :=
  (empty .dts).addAll [slide 0 1, slide 1 2, slide 10 0, slide 12 3]

theorem successive_slides : slides.order.Successive slides.toList where
  isFinite := by decide +kernel
  duration_nonneg := by decide +kernel
  ends := by decide +kernel

theorem near_is_nearest_and_monotone_slides :
    slides.getFrame (.finite 6) .near = some (slide 1 2) ∧
      slides.order.IsNearest (.finite 6) slides.toList (slide 1 2) ∧
      ∃ f g, twoScenes.getFrame 3 .near = some f ∧ twoScenes.getFrame 4 .near = some g ∧
        (f = g ∨ twoScenes.order.key f < twoScenes.order.key g) := by
  have hb : slides.Sorted := by decide +kernel
  have hne : slides.toList ≠ [] := by decide +kernel
  have hb' : twoScenes.Sorted := by decide +kernel
  have hne' : twoScenes.toList ≠ [] := by decide +kernel
  have hfound : slides.getFrame (.finite 6) .near = some (slide 1 2) := by decide +kernel
  obtain ⟨hnearest, hmonotone⟩ := near_is_nearest_and_monotone
  obtain ⟨f, hf, hleast⟩ := hnearest slides (.finite 6) hb hne successive_slides (by decide)
  rw [hfound] at hf
  cases hf
  exact ⟨hfound, hleast, hmonotone twoScenes 3 4 hb' hne' (by decide +kernel)⟩

end FrameBuffer

end MediaPipeline
