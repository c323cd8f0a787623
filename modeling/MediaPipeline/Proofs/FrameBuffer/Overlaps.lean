import MediaPipeline.Proofs.FrameBuffer.Bounds

/-!
# Reported ranges that overlap

In a buffer that is sorted by presentation time the reported ranges start one after another. Whether
a frame belongs to a run is judged by the last frame of the run. One that ends sooner than a frame
before it hides how far the run goes, and then the next run may begin inside its range.
-/

namespace MediaPipeline

open MediaTime LawfulMediaTime

variable {F T : Type} [Frame F T] [MediaTime T] {order : FrameOrder} {f g : F}

namespace FrameBuffer

/-- The end of every frame that has been added since the last clear is related to the start of every
run that begins after the start of the frame. -/
def EndsAgainst (Q : T → T → Prop) (es : List (BufferEdit F T)) (b : FrameBuffer F T) : Prop :=
  ∀ f, IsWritten es f → ∀ r ∈ b.runs, ∀ g ∈ r.frames.head?, Frame.pts f < Frame.pts g →
    Q (Frame.presentationEnd f) (Frame.pts g)

/-! ## The frames of all ledgers -/

variable {b : FrameBuffer (Replacing F) T} {e : BufferEdit F T} {es : List (BufferEdit F T)}

/-- All the frames that have been put into the runs. -/
def ledger (b : FrameBuffer (Replacing F) T) : List F := b.runs.flatMap (·.ledger.frames)

omit [Frame F T] [MediaTime T] in
theorem ledger_eq (b : FrameBuffer (Replacing F) T) :
    b.ledger = b.toList.flatMap Replacing.all := by
  simp [ledger, toList, List.flatMap_assoc, Run.ledger]

theorem mem_ledger_add (b : FrameBuffer (Replacing F) T) (f g : F) :
    g ∈ (b.track (.add f)).ledger ↔ g = f ∨ g ∈ b.ledger := by
  have hmerge : (b.track (.add f)).ledger =
      (place b.order (heir b.order f b.runs) b.runs).flatMap (·.ledger.frames) := by
    rw [ledger_eq, toList, track, add, flatMap_mergeRuns, List.flatMap_assoc]
    rfl
  rw [hmerge, ledger]
  rcases place_heir_cases b.order f b.runs with
    ⟨before, r, after, hruns, hplace⟩ | ⟨before, after, hruns, hplace⟩
  · rw [hplace, hruns]
    simp only [List.flatMap_append, List.flatMap_cons, List.mem_append, Run.mem_ledger_insert]
    tauto
  · have hsingle : g ∈ (Run.singleton ⟨f, []⟩ : Run (Replacing F) T).ledger.frames ↔ g = f := by
      simp [Run.ledger, Run.singleton, Replacing.all]
    rw [hplace, hruns]
    simp only [List.flatMap_append, List.flatMap_cons, List.mem_append, hsingle]
    tauto

/-- If nothing is removed, the ledgers hold all that has been added since the last clear. -/
theorem mem_ledger_trackAll (order : FrameOrder) (hkeep : ∀ start stop, .remove start stop ∉ es) :
    g ∈ (trackAll order es).ledger ↔ IsWritten es g := by
  induction es using List.reverseRecOn with
  | nil => simp [trackAll, empty, ledger, IsWritten]
  | append_singleton es e ih =>
      have hpast : ∀ start stop, .remove start stop ∉ es := fun start stop h =>
        hkeep start stop (List.mem_append_left _ h)
      rw [trackAll_concat]
      cases e with
      | add f => rw [mem_ledger_add, ih hpast, isWritten_concat_add]
      | remove start stop => exact absurd (by simp) (hkeep start stop)
      | clear =>
          simp only [not_isWritten_concat_clear, iff_false]
          simp [track, clear, ledger]

/-! ## Frames that hold the keys -/

theorem mem_insertFrame_self {fs : List F} : f ∈ Run.insertFrame order fs f := by
  have hle := order.lowerBound_le_length fs (order.key f)
  simp only [Run.insertFrame]
  split_ifs with hsame
  · obtain ⟨old, hold, -⟩ := (Option.any_eq_true _ _).mp hsame
    exact List.mem_set (List.getElem?_eq_some_iff.mp hold).1 f
  · exact (List.mem_insertIdx hle).mpr (Or.inl rfl)

/-- A frame stays, or gives way to one that has its key. -/
theorem mem_insertFrame_or {fs : List F} (hg : g ∈ fs) :
    g ∈ Run.insertFrame order fs f ∨ (order.key g == order.key f) = true := by
  have hle := order.lowerBound_le_length fs (order.key f)
  simp only [Run.insertFrame]
  split_ifs with hsame
  · obtain ⟨old, hold, hkey⟩ := (Option.any_eq_true _ _).mp hsame
    obtain ⟨i, hi, rfl⟩ := List.mem_iff_getElem.mp hg
    by_cases hat : order.lowerBound fs (order.key f) = i
    · rw [hat, List.getElem?_eq_getElem hi, Option.some.injEq] at hold
      exact Or.inr (hold ▸ hkey)
    · refine Or.inl (List.mem_iff_getElem.mpr ⟨i, by simpa using hi, ?_⟩)
      rw [List.getElem_set_ne hat]
  · exact Or.inl ((List.mem_insertIdx hle).mpr (Or.inr hg))

variable [LawfulMediaTime T]

/-- Every frame that has been put into the run has the key of a frame that it holds. -/
def KeepsKeys (order : FrameOrder) (r : Run (Replacing F) T) : Prop :=
  ∀ g ∈ r.ledger.frames, ∃ h ∈ r.frames, (order.key h == order.key g) = true

theorem keepsKeys_singleton (hf : IsNumber (order.key f)) :
    KeepsKeys order (.singleton ⟨f, []⟩ : Run (Replacing F) T) := by
  intro g hg
  obtain rfl : g = f := by simpa [Run.ledger, Run.singleton, Replacing.all] using hg
  refine ⟨⟨g, []⟩, List.mem_singleton_self _, ?_⟩
  rw [Replacing.key]
  exact beq_iff.mpr ⟨hf, hf⟩

omit [LawfulMediaTime T] in
theorem keepsKeys_append {r s : Run (Replacing F) T} (hr : KeepsKeys order r)
    (hs : KeepsKeys order s) : KeepsKeys order (r.append s) := by
  intro g hg
  rw [Run.ledger_append] at hg
  rcases List.mem_append.mp hg with hg | hg
  · obtain ⟨h, hh, hkey⟩ := hr g hg
    exact ⟨h, List.mem_append_left _ hh, hkey⟩
  · obtain ⟨h, hh, hkey⟩ := hs g hg
    exact ⟨h, List.mem_append_right _ hh, hkey⟩

theorem keepsKeys_insert {r : Run (Replacing F) T} (hr : KeepsKeys order r)
    (hf : IsNumber (order.key f)) : KeepsKeys order (r.insert order (r.heir order f)) := by
  have hkey : order.key (r.heir order f) = order.key f := Replacing.key _
  have hself : r.heir order f ∈ (r.insert order (r.heir order f)).frames := mem_insertFrame_self
  intro g hg
  rcases (Run.mem_ledger_insert r f g).mp hg with rfl | hg
  · exact ⟨r.heir order g, hself, hkey ▸ beq_iff.mpr ⟨hf, hf⟩⟩
  · obtain ⟨h, hh, hhg⟩ := hr g hg
    rcases mem_insertFrame_or hh with hstays | hgives
    · exact ⟨h, hstays, hhg⟩
    · obtain ⟨hhf, hfh⟩ := beq_iff.mp hgives
      obtain ⟨hhg, hgh⟩ := beq_iff.mp hhg
      exact ⟨r.heir order f, hself, beq_iff.mpr ⟨le_trans hfh hhg, le_trans hgh hhf⟩⟩

omit [LawfulMediaTime T] in
theorem isTimed_heir {rs : List (Run (Replacing F) T)} (hf : Frame.IsTimed f) :
    Frame.IsTimed (heir order f rs) := by
  rw [← frame_heir order f rs] at hf
  exact ⟨hf.pts, hf.dts, hf.duration, hf.duration_nonneg⟩

/-- What is known of the records after a history without removals. -/
structure Files (order : FrameOrder) (b : FrameBuffer (Replacing F) T) : Prop where
  order_eq : b.order = order
  isSeparated : b.IsSeparated
  keepsKeys : ∀ r ∈ b.runs, KeepsKeys order r

theorem files_trackAll (order : FrameOrder) (hes : Proper es)
    (hkeep : ∀ start stop, .remove start stop ∉ es) : (trackAll order es).Files order := by
  induction es using List.reverseRecOn with
  | nil => exact ⟨rfl, isSeparated_of_runs_eq_nil rfl, by simp [trackAll, empty]⟩
  | append_singleton es e ih =>
      obtain ⟨horder, hseparated, hkeys⟩ := ih (fun f hf => hes f (List.mem_append_left _ hf))
        fun start stop h => hkeep start stop (List.mem_append_left _ h)
      rw [trackAll_concat]
      cases e with
      | add f =>
          have hf : Frame.IsTimed f := hes f (by simp)
          have hnumber : IsNumber (order.key f) := FrameOrder.isNumber_key hf
          refine ⟨horder, hseparated.add (isTimed_heir hf), ?_⟩
          refine forall_mem_track_add (fun r s => keepsKeys_append) (keepsKeys_singleton hnumber)
            ?_ hkeys
          rw [horder]
          exact fun r hr => keepsKeys_insert hr hnumber
      | remove start stop => exact absurd (by simp) (hkeep start stop)
      | clear => exact ⟨horder, isSeparated_of_runs_eq_nil rfl, by simp [track, clear]⟩

/-! ## Runs in the order of presentation -/

omit [LawfulMediaTime T] in
/-- The frames of a run are followed by those of the later runs. -/
theorem Files.pairwise_runs (hb : b.Files order) :
    b.runs.Pairwise fun r s => ∀ f ∈ r.frames, ∀ g ∈ s.frames, order.key f < order.key g := by
  have hasc := hb.isSeparated.coherent.ascending.pairwise
  rw [hb.order_eq] at hasc
  exact (List.pairwise_flatMap.mp hasc).2

omit [LawfulMediaTime T] in
theorem Files.ascending (hb : b.Files order) {r : Run (Replacing F) T} (hr : r ∈ b.runs) :
    order.Ascending r.frames :=
  hb.order_eq ▸ hb.isSeparated.coherent.ascending_of_mem hr

theorem Files.head_le (hb : b.Files order) {r : Run (Replacing F) T} (hr : r ∈ b.runs)
    {first h : Replacing F} (hfirst : first ∈ r.frames.head?) (hh : h ∈ r.frames) :
    order.key first ≤ order.key h := by
  have hasc := hb.ascending hr
  obtain ⟨rest, hframes⟩ := List.head?_eq_some_iff.mp hfirst
  rw [hframes] at hasc hh
  rcases List.mem_cons.mp hh with rfl | hh
  · exact hasc.isNumber h List.mem_cons_self
  · exact le_of_lt (List.rel_of_pairwise_cons hasc.pairwise hh)

variable {r s : Run (Replacing F) T} {first : Replacing F}

/-- What has been put into a run starts before the later runs do. -/
theorem Files.pts_lt (hb : b.Files .pts) (hr : r ∈ b.runs) (hf : f ∈ r.ledger.frames)
    (hrs : ∀ h ∈ r.frames, FrameOrder.pts.key h < FrameOrder.pts.key first) :
    Frame.pts f < Frame.pts first := by
  obtain ⟨h, hh, hkey⟩ := hb.keepsKeys r hr f hf
  exact lt_of_le_of_lt (beq_iff.mp hkey).2 (hrs h hh)

theorem Files.le_pts (hb : b.Files .pts) (hr : r ∈ b.runs) (hf : f ∈ r.ledger.frames)
    (hrs : ∀ h ∈ r.frames, FrameOrder.pts.key first ≤ FrameOrder.pts.key h) :
    Frame.pts first ≤ Frame.pts f := by
  obtain ⟨h, hh, hkey⟩ := hb.keepsKeys r hr f hf
  exact le_trans (hrs h hh) (beq_iff.mp hkey).1

/-- A run starts with its first frame. -/
theorem Files.start_head (hb : b.Files .pts) (hr : r ∈ b.runs) (htight : r.ledger.Tight)
    (hfirst : first ∈ r.frames.head?) : r.start ≤ Frame.pts first ∧ Frame.pts first ≤ r.start := by
  refine ⟨htight.start_le _ (Run.frame_mem_ledger (List.mem_of_head? hfirst)), ?_⟩
  obtain ⟨g, hg, hstart⟩ := htight.start_attained
  exact hstart ▸ hb.le_pts hr hg fun h hh => hb.head_le hr hfirst hh

/-- How the end of each run is related to the start of a later one, told by the frames. -/
theorem Files.pairwise_iff (hb : b.Files .pts) (htight : ∀ r ∈ b.runs, r.ledger.Tight)
    {Q : T → T → Prop} (hQ : ∀ {t t' u u' : T}, t' ≤ t → u ≤ u' → Q t u → Q t' u') :
    (b.runs.Pairwise fun r s => Q r.stop s.start) ↔
      ∀ f ∈ b.ledger, ∀ s ∈ b.runs, ∀ first ∈ s.frames.head?, Frame.pts f < Frame.pts first →
        Q (Frame.presentationEnd f) (Frame.pts first) := by
  constructor
  · intro hpairwise f hf s hs
    obtain ⟨r, hr, hf⟩ := List.mem_flatMap.mp hf
    refine List.Pairwise.forall_of_forall_of_flip
      (R := fun r s : Run (Replacing F) T => ∀ f ∈ r.ledger.frames, ∀ first ∈ s.frames.head?,
        Frame.pts f < Frame.pts first → Q (Frame.presentationEnd f) (Frame.pts first))
      ?_ ?_ ?_ hr hs f hf
    · intro r hr f hf first hfirst hlt
      have hle := hb.le_pts hr hf fun h hh => hb.head_le hr hfirst hh
      exact absurd hle (not_le_of_lt hlt)
    · -- Only a later run begins after the frames of an earlier one.
      refine hpairwise.imp_of_mem fun {r s} hr hs hrs f hf first hfirst _ => ?_
      exact hQ ((htight r hr).le_stop f hf) (hb.start_head hs (htight s hs) hfirst).1 hrs
    · refine hb.pairwise_runs.imp_of_mem fun {s r} _ hr hsr f hf first hfirst hlt => ?_
      have hle := hb.le_pts hr hf fun h hh => le_of_lt (hsr first (List.mem_of_head? hfirst) h hh)
      exact absurd hle (not_le_of_lt hlt)
  · intro hends
    refine hb.pairwise_runs.imp_of_mem fun {r s} hr hs hrs => ?_
    obtain ⟨f, hf, hstop⟩ := (htight r hr).stop_attained
    have hne := (hb.isSeparated.coherent.wellFormed s hs).frames_ne_nil
    have hfirst : s.frames.head hne ∈ s.frames.head? := List.head?_eq_some_head hne
    have hlt := hb.pts_lt hr hf fun h hh => hrs h hh _ (List.head_mem hne)
    have hQf := hends f (List.mem_flatMap.mpr ⟨r, hr, hf⟩) s hs _ hfirst hlt
    have hstart := (hb.start_head hs (htight s hs) hfirst).2
    have hend : r.ledger.stop ≤ Frame.presentationEnd f := by
      rw [hstop]
      exact (isNumber_of_le ((htight r hr).le_stop f hf)).2
    exact hQ hend hstart hQf

theorem Files.pairwise_start_lt (hb : b.Files .pts) (htight : ∀ r ∈ b.runs, r.ledger.Tight) :
    b.runs.Pairwise fun r s => r.start < s.start := by
  refine hb.pairwise_runs.imp_of_mem fun {r s} hr hs hrs => ?_
  obtain ⟨f, hf, hstart⟩ := (htight r hr).start_attained
  have hne := (hb.isSeparated.coherent.wellFormed s hs).frames_ne_nil
  have hfirst : s.frames.head hne ∈ s.frames.head? := List.head?_eq_some_head hne
  have hlt := hb.pts_lt hr hf fun h hh => hrs h hh _ (List.head_mem hne)
  rw [hstart] at hlt
  exact lt_of_lt_of_le hlt (hb.start_head hs (htight s hs) hfirst).2

/-! ## Reported ranges -/

omit [LawfulMediaTime T] in
theorem ranges_editAll (order : FrameOrder) (es : List (BufferEdit F T)) :
    ((empty order).editAll es).ranges = (trackAll order es).ranges := by
  rw [← map_frame_trackAll]
  simp [ranges, FrameBuffer.map, Run.map, Run.range, Function.comp_def]

omit [LawfulMediaTime T] in
theorem endsAgainst_editAll_iff (order : FrameOrder) (Q : T → T → Prop)
    (hkeep : ∀ start stop, .remove start stop ∉ es) :
    EndsAgainst Q es ((empty order).editAll es) ↔
      ∀ f ∈ (trackAll order es).ledger, ∀ s ∈ (trackAll order es).runs,
        ∀ first ∈ s.frames.head?, Frame.pts f < Frame.pts first →
          Q (Frame.presentationEnd f) (Frame.pts first) := by
  simp only [EndsAgainst, ← map_frame_trackAll, FrameBuffer.map, List.forall_mem_map, Run.map,
    List.head?_map, mem_ledger_trackAll order hkeep]
  simp only [Option.mem_def, Option.map_eq_some_iff]
  constructor
  · intro hends f hf s hs first hfirst
    exact hends f hf s hs first.frame ⟨first, hfirst, rfl⟩
  · rintro hends f hf s hs g ⟨first, hfirst, rfl⟩
    exact hends f hf s hs first hfirst

theorem pairwise_ranges_iff (hes : Proper es) (hkeep : ∀ start stop, .remove start stop ∉ es)
    {Q : T → T → Prop} (hQ : ∀ {t t' u u' : T}, t' ≤ t → u ≤ u' → Q t u → Q t' u') :
    (((empty .pts).editAll es).ranges.Pairwise fun r s => Q r.stop s.start) ↔
      EndsAgainst Q es ((empty .pts).editAll es) := by
  rw [ranges_editAll, ranges, List.pairwise_map, endsAgainst_editAll_iff .pts Q hkeep]
  exact (files_trackAll .pts hes hkeep).pairwise_iff (tight_ledger_trackAll .pts hes) hQ

theorem pairwise_ranges_start_lt (hes : Proper es)
    (hkeep : ∀ start stop, .remove start stop ∉ es) :
    ((empty .pts).editAll es).ranges.Pairwise fun r s => r.start < s.start := by
  rw [ranges_editAll, ranges, List.pairwise_map]
  exact (files_trackAll .pts hes hkeep).pairwise_start_lt (tight_ledger_trackAll .pts hes)

end FrameBuffer

/-! ## Exact times -/

section Exact

/-- A run that does not end before it starts, out of the tolerance after `r`. -/
structure Run.Precedes {F : Type} (r s : Run F ExactTime) : Prop where
  stop_lt_start : r.stop + maxGap < s.start
  start_le_stop : s.start ≤ s.stop

instance {F : Type} : Trans (Run.Precedes (F := F)) Run.Precedes Run.Precedes where
  trans {r s t} hrs hst := by
    have hgap : s.stop ≤ s.stop + maxGap := ExactTime.le_add_of_nonneg maxGap_nonneg s.stop
    have hbegins := lt_of_lt_of_le hrs.stop_lt_start (le_trans hrs.start_le_stop hgap)
    exact ⟨lt_trans hbegins hst.stop_lt_start, hst.start_le_stop⟩

namespace FrameBuffer

variable {F : Type} [Frame F ExactTime] {es : List (BufferEdit F ExactTime)}

section Ends

variable {b : FrameBuffer (Replacing F) ExactTime} {r s : Run (Replacing F) ExactTime}
variable (hb : b.Files .pts) (htight : ∀ r ∈ b.runs, r.ledger.Tight)
  (hends : ∀ f ∈ b.ledger, ∀ g ∈ b.ledger, Frame.pts f ≤ Frame.pts g →
    Frame.presentationEnd f ≤ Frame.presentationEnd g)

include hb htight hends

/-- No frame that begins later ends sooner, so the last frame of a run ends with the run. -/
theorem Files.stop_le_getLast {last : Replacing F} (hr : r ∈ b.runs)
    (hlast : last ∈ r.frames.getLast?) : r.stop ≤ Frame.presentationEnd last := by
  have hmem {f : F} (hf : f ∈ r.ledger.frames) : f ∈ b.ledger := List.mem_flatMap.mpr ⟨r, hr, hf⟩
  have hheld : last.frame ∈ r.ledger.frames := Run.frame_mem_ledger (List.mem_of_getLast? hlast)
  obtain ⟨f, hf, hstop⟩ := (htight r hr).stop_attained
  obtain ⟨h, hh, hkey⟩ := hb.keepsKeys r hr f hf
  have hle : FrameOrder.pts.key h ≤ FrameOrder.pts.key last := by
    have hasc := hb.ascending hr
    obtain ⟨front, hframes⟩ := List.getLast?_eq_some_iff.mp hlast
    rw [hframes] at hasc hh
    rcases List.mem_append.mp hh with hh | hh
    · exact le_of_lt ((List.pairwise_append.mp hasc.pairwise).2.2 h hh last List.mem_cons_self)
    · exact List.mem_singleton.mp hh ▸ ExactTime.refl _
  exact hstop ▸ hends f (hmem hf) last.frame (hmem hheld) (le_trans (beq_iff.mp hkey).2 hle)

theorem Files.precedes (hr : r ∈ b.runs) (hs : s ∈ b.runs) (htouch : touches .pts r s = false) :
    r.Precedes s := by
  have hwell := hb.isSeparated.coherent.wellFormed
  have hfirst := List.head?_eq_some_head (hwell s hs).frames_ne_nil
  have hlast := List.getLast?_eq_some_getLast (hwell r hr).frames_ne_nil
  simp only [touches, Run.reachesFrame, hfirst, hlast, Option.any_some, FrameOrder.reaches,
    decide_eq_false_iff_not] at htouch
  have hstop := hb.stop_le_getLast htight hends hr hlast
  have hgap := lt_of_le_of_lt (ExactTime.add_le_add_right hstop maxGap)
    (ExactTime.lt_iff_not_le.mpr htouch)
  exact ⟨lt_of_lt_of_le hgap (hb.start_head hs (htight s hs) hfirst).2, (hwell s hs).start_le_stop⟩

end Ends

/-- If no frame that has been added ends before one that begins earlier, the ranges are more than
the tolerance apart. -/
theorem ranges_separated_of_ends (hes : Proper es) (hkeep : ∀ start stop, .remove start stop ∉ es)
    (hends : ∀ f g, IsWritten es f → IsWritten es g → Frame.pts f ≤ Frame.pts g →
      Frame.presentationEnd f ≤ Frame.presentationEnd g) :
    ((empty .pts).editAll es).ranges.Pairwise fun r s => r.stop + maxGap < s.start := by
  have hb := files_trackAll .pts hes hkeep
  have hchain : (trackAll .pts es).runs.IsChain Run.Precedes := by
    apply hb.isSeparated.separated.imp_of_mem_imp
    intro r s hr hs htouch
    rw [hb.order_eq] at htouch
    refine hb.precedes (tight_ledger_trackAll .pts hes) ?_ hr hs htouch
    intro f hf g hg
    rw [mem_ledger_trackAll .pts hkeep] at hf hg
    exact hends f g hf hg
  rw [ranges_editAll, ranges, List.pairwise_map]
  -- A run does not end before it starts, so what is behind the next one is further away.
  exact hchain.pairwise.imp Run.Precedes.stop_lt_start

/-- After additions and clears the ranges start one after another. They do not overlap exactly if
each frame that has been added ends when a range that begins after it starts, or before, and they
are more than the tolerance apart exactly if it ends that much before. They are so if no frame ends
before one that begins earlier. -/
theorem ranges_separated_iff (hes : Proper es) (hkeep : ∀ start stop, .remove start stop ∉ es) :
    let b := (empty .pts).editAll es
    (b.ranges.Pairwise fun r s => r.start < s.start) ∧
    ((b.ranges.Pairwise fun r s => r.stop ≤ s.start) ↔ EndsAgainst (· ≤ ·) es b) ∧
    ((b.ranges.Pairwise fun r s => r.stop + maxGap < s.start) ↔
      EndsAgainst (fun stop start => stop + maxGap < start) es b) ∧
    ((∀ f g, IsWritten es f → IsWritten es g → Frame.pts f ≤ Frame.pts g →
        Frame.presentationEnd f ≤ Frame.presentationEnd g) →
      b.ranges.Pairwise fun r s => r.stop + maxGap < s.start) := by
  refine ⟨pairwise_ranges_start_lt hes hkeep, pairwise_ranges_iff hes hkeep ?_,
    pairwise_ranges_iff (Q := fun stop start => stop + maxGap < start) hes hkeep ?_,
    ranges_separated_of_ends hes hkeep⟩
  · exact fun htt huu htu => le_trans htt (le_trans htu huu)
  · intro t t' u u' htt huu htu
    have hle := ExactTime.add_le_add_right htt maxGap
    exact lt_of_lt_of_le (lt_of_le_of_lt hle htu) huu

/-- A long frame, a short one in its span, and one at a later time. -/
def nested (t : ℚ) : List (BufferEdit (EncodedFrame ExactTime) ExactTime) :=
  [.add (delayed 0 100 0), .add (delayed 10 10 10), .add (delayed t 10 t)]

theorem proper_nested (t : ℚ) : Proper (nested t) := by
  have htimed (dts duration pts : ℚ) (hduration : 0 ≤ duration / 10) :
      Frame.IsTimed (delayed dts duration pts) :=
    ⟨rfl, rfl, rfl, ExactTime.finite_le_finite.mpr hduration⟩
  intro f hf
  simp only [nested, List.mem_cons, BufferEdit.add.injEq, List.not_mem_nil, or_false] at hf
  rcases hf with rfl | rfl | rfl
  all_goals exact htimed _ _ _ (by decide +kernel)

theorem no_remove_nested (t : ℚ) (start stop : ExactTime) : .remove start stop ∉ nested t := by
  simp [nested]

/-- The last frame lies in the span of the first, or well behind it. -/
theorem ranges_separated_iff_nested :
    ((Proper (nested 50) ∧ ∀ start stop, .remove start stop ∉ nested 50) ∧
      Proper (nested 105) ∧ ∀ start stop, .remove start stop ∉ nested 105) ∧
    ¬ EndsAgainst (· ≤ ·) (nested 50) ((empty .pts).editAll (nested 50)) ∧
    EndsAgainst (fun stop start => stop + maxGap < start) (nested 105)
      ((empty .pts).editAll (nested 105)) := by
  have hconditions (t : ℚ) :
      Proper (nested t) ∧ ∀ start stop, .remove start stop ∉ nested t :=
    ⟨proper_nested t, no_remove_nested t⟩
  refine ⟨⟨hconditions 50, hconditions 105⟩, ?_, ?_⟩
  · have hoverlap : ¬ ((empty .pts).editAll (nested 50)).ranges.Pairwise
        fun r s => r.stop ≤ s.start := by decide +kernel
    exact mt (ranges_separated_iff (proper_nested 50) (no_remove_nested 50)).2.1.mpr hoverlap
  · exact (ranges_separated_iff (proper_nested 105) (no_remove_nested 105)).2.2.1.mp
      (by decide +kernel)

/-- The last frame of the run ends after two seconds, the run itself after ten. -/
theorem nested_overlaps :
    ¬ ∀ es : List (BufferEdit (EncodedFrame ExactTime) ExactTime), Proper es →
      (∀ start stop, .remove start stop ∉ es) →
      let b := (empty .pts).editAll es
      (b.ranges.Pairwise fun r s => r.start < s.start) ∧
      (b.ranges.Pairwise fun r s => r.stop ≤ s.start) ∧
      b.ranges.Pairwise fun r s => r.stop + maxGap < s.start := by
  intro hseparated
  exact absurd (hseparated _ (proper_nested 50) (no_remove_nested 50)).2.1 (by decide +kernel)

end FrameBuffer

end Exact

end MediaPipeline
