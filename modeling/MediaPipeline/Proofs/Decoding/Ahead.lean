import MediaPipeline.Proofs.Decoding.InOrder
import MediaPipeline.Proofs.Decoding.Output
import MediaPipeline.Proofs.Decoding.SeekTarget
import MediaPipeline.Proofs.FrameBuffer.Eviction

/-!
# How far decoding runs ahead

A round decodes another frame only if the output does not reach further than a bound from the
current time on. What it measures is the first run that ends after the current time. As long as
everything that is decoded from that time on lies in this run, the output lasts no longer than the
bound and one frame; what lies behind a gap is not measured, and then nothing holds decoding back.
-/

namespace MediaPipeline

open MediaTime LawfulMediaTime FrameBuffer

/-! ## Passing frames through -/

namespace PassThrough

variable {T : Type} {f : EncodedFrame T} {data : Bytes}

@[simp] theorem pts_rawFrame : Frame.pts (rawFrame f data) = f.pts := by
  unfold rawFrame
  dsimp only
  split <;> rfl

@[simp] theorem dts_rawFrame : Frame.dts (rawFrame f data) = f.dts := by
  unfold rawFrame
  dsimp only
  split <;> rfl

@[simp] theorem duration_rawFrame : Frame.duration (rawFrame f data) = f.duration := by
  unfold rawFrame
  dsimp only
  split <;> rfl

theorem isTimed_rawFrame [MediaTime T] (hf : Frame.IsTimed f) (data : Bytes) :
    Frame.IsTimed (rawFrame f data) where
  pts := pts_rawFrame.symm ▸ hf.pts
  dts := dts_rawFrame.symm ▸ hf.dts
  duration := duration_rawFrame.symm ▸ hf.duration
  duration_nonneg := duration_rawFrame.symm ▸ hf.duration_nonneg

/-- One raw frame comes out for each frame, and none for a flush. -/
theorem decode_eq_ok {d d' : PassThrough T} {frame : Option (EncodedFrame T)}
    {ring : Option Keyring} {decoded : List (DecodedFrame T)}
    (h : Decoder.decode d frame ring = (.ok decoded, d')) :
    (frame = none ∧ decoded = []) ∨ ∃ f data, frame = some f ∧ decoded = [rawFrame f data] := by
  have hdecode : decode frame ring = .ok decoded := congrArg Prod.fst h
  unfold decode at hdecode
  split at hdecode
  · cases hdecode
    exact .inl ⟨rfl, rfl⟩
  · next f =>
    split at hdecode
    · next data _ =>
      cases hdecode
      exact .inr ⟨f, data, rfl, rfl⟩
    · cases hdecode

end PassThrough

/-! ## The output -/

/-- The output holds raw images of frames of the input `b`, in runs that are out of reach of each
other. -/
structure DecodedBuffer.Shows (out : DecodedBuffer ExactTime) (b : EncodedBuffer ExactTime) :
    Prop where
  order : out.order = .pts
  isSeparated : out.IsSeparated
  covers : ∀ r ∈ out.runs, r.Covers
  source : ∀ g ∈ out.toList, ∃ f ∈ b.toList, ∃ data, g = PassThrough.rawFrame f data

/-- A stream in decode order. A frame is over when one that is shown later begins. -/
structure EncodedBuffer.IsTimeline (b : EncodedBuffer ExactTime) : Prop where
  order : b.order = .dts
  isSpaced : b.IsSpaced
  timed : ∀ f ∈ b.toList, Frame.IsTimed f
  disjoint : ∀ f ∈ b.toList, ∀ g ∈ b.toList, f.pts < g.pts → f.pts + f.duration ≤ g.pts

namespace DecodedBuffer

variable {out : DecodedBuffer ExactTime} {b : EncodedBuffer ExactTime} {f : EncodedFrame ExactTime}
  {t : ExactTime}

/-- How long everything lasts that is shown from `t` on. -/
def ahead (out : DecodedBuffer ExactTime) (t : ExactTime) : ExactTime :=
  totalDuration (shownFrom t out.toList)

/-- Everything that is shown from `t` on lies in the run that is measured. -/
def InOneRun (out : DecodedBuffer ExactTime) (t : ExactTime) : Prop :=
  ∀ g ∈ shownFrom t out.toList, g ∈ FrameBuffer.measured out t

theorem Shows.timed (hout : out.Shows b) : ∀ g ∈ out.toList, Frame.IsTimed g :=
  hout.isSeparated.coherent.timed

theorem Shows.ascending (hout : out.Shows b) : FrameOrder.pts.Ascending out.toList :=
  hout.order ▸ hout.isSeparated.coherent.ascending

theorem Shows.add (hout : out.Shows b) (hb : b.IsTimeline) (hf : f ∈ b.toList) (data : Bytes) :
    DecodedBuffer.Shows (out.add (PassThrough.rawFrame f data)) b where
  order := hout.order
  isSeparated := hout.isSeparated.add (PassThrough.isTimed_rawFrame (hb.timed f hf) data)
  covers := covers_add hout.covers
  source := by
    rw [hout.isSeparated.toList_add (PassThrough.isTimed_rawFrame (hb.timed f hf) data)]
    intro g hg
    rcases FrameOrder.mem_update hg with rfl | hg
    · exact ⟨f, hf, data, rfl⟩
    · exact hout.source g hg

theorem Shows.ahead_add_le (hout : out.Shows b) (hb : b.IsTimeline) (hf : f ∈ b.toList)
    (data : Bytes) :
    ahead (out.add (PassThrough.rawFrame f data)) t ≤ out.ahead t + f.duration := by
  have hraw := PassThrough.isTimed_rawFrame (hb.timed f hf) data
  have hupdate := totalDuration_update_le t hout.isSeparated.coherent.ascending
    (fun g hg => (hout.timed g hg).duration_nonneg) hraw.duration_nonneg
  rw [PassThrough.duration_rawFrame] at hupdate
  unfold ahead
  rw [hout.isSeparated.toList_add hraw]
  exact hupdate

theorem Shows.evict (hout : out.Shows b) (settings : PipelineSettings ExactTime) :
    DecodedBuffer.Shows (DecodeWorker.evict settings t out) b := by
  unfold DecodeWorker.evict
  dsimp only
  split_ifs
  · refine ⟨hout.order, ?_, covers_remove _ _, fun g hg => ?_⟩
    · exact hout.isSeparated.remove_negInf (fun _ => rfl) (ExactTime.refl _) hout.order
    · exact hout.source g ((toList_remove_sublist _ _ _).subset hg)
  · exact hout

theorem Shows.ahead_evict_le (hout : out.Shows b) (settings : PipelineSettings ExactTime) :
    ahead (DecodeWorker.evict settings t out) t ≤ out.ahead t := by
  unfold DecodeWorker.evict
  dsimp only
  split_ifs
  · have hsub := (toList_remove_sublist out MediaTime.negInf (t - settings.evictionBehind)).filter
      fun f => decide (t ≤ Frame.pts f)
    exact totalDuration_le_of_sublist hsub
      fun g hg => (hout.timed g (List.mem_filter.mp hg).1).duration_nonneg
  · exact ExactTime.refl _

theorem Shows.disjoint (hout : out.Shows b) (hb : b.IsTimeline) :
    out.toList.Pairwise fun g h => Frame.presentationEnd g ≤ Frame.pts h := by
  refine hout.ascending.pairwise.imp_of_mem fun {g h} hg hh hlt => ?_
  obtain ⟨f, hf, _, rfl⟩ := hout.source g hg
  obtain ⟨f', hf', _, rfl⟩ := hout.source h hh
  have hpts : f.pts < f'.pts := by
    simpa only [FrameOrder.key, PassThrough.pts_rawFrame] using hlt
  simpa [Frame.presentationEnd] using hb.disjoint f hf f' hf' hpts

theorem Shows.sublist_measured (hout : out.Shows b) (hrun : out.InOneRun t) :
    (shownFrom t out.toList).Sublist (shownFrom t (FrameBuffer.measured out t)) := by
  by_cases hempty : shownFrom t out.toList = []
  · rw [hempty]
    exact List.nil_sublist _
  · obtain ⟨g, hg⟩ := List.exists_mem_of_ne_nil _ hempty
    obtain ⟨r, hr, hmeasured⟩ := exists_run_of_mem_measured (hrun g hg)
    obtain ⟨before, after, hsplit⟩ := List.append_of_mem hr
    have hlist : out.toList =
        before.flatMap Run.frames ++ (r.frames ++ after.flatMap Run.frames) := by
      simp [FrameBuffer.toList, hsplit]
    have hasc := hout.ascending.pairwise
    rw [hlist] at hasc
    obtain ⟨-, hrest, hbefore⟩ := List.pairwise_append.mp hasc
    obtain ⟨-, -, hafter⟩ := List.pairwise_append.mp hrest
    -- A frame of another run is not in this one.
    have hin : ∀ h ∈ shownFrom t out.toList, h ∈ r.frames := fun h hh => hmeasured ▸ hrun h hh
    simp only [shownFrom, hlist, List.filter_append] at hin
    have hnone : (before.flatMap Run.frames).filter (fun f => decide (t ≤ Frame.pts f)) = [] := by
      refine List.eq_nil_iff_forall_not_mem.mpr fun h hh => ?_
      have hmem := hin h (List.mem_append_left _ hh)
      exact not_le_of_lt (hbefore h (List.mem_filter.mp hh).1 h (List.mem_append_left _ hmem))
        (ExactTime.refl _)
    have hnone' : (after.flatMap Run.frames).filter (fun f => decide (t ≤ Frame.pts f)) = [] := by
      refine List.eq_nil_iff_forall_not_mem.mpr fun h hh => ?_
      have hmem := hin h (List.mem_append_right _ (List.mem_append_right _ hh))
      exact not_le_of_lt (hafter h hmem h (List.mem_filter.mp hh).1) (ExactTime.refl _)
    rw [hmeasured, hlist]
    simp only [shownFrom, List.filter_append, hnone, hnone', List.nil_append, List.append_nil]
    exact List.Sublist.refl _

theorem Shows.ahead_le_bufferedAhead (hout : out.Shows b) (hb : b.IsTimeline) {q : ℚ}
    (hrun : out.InOneRun (.finite q)) :
    out.ahead (.finite q) ≤ TimeRange.bufferedAhead out.ranges (.finite q) := by
  have hwell := hout.isSeparated.coherent.wellFormed
  refine le_trans (totalDuration_le_of_sublist (hout.sublist_measured hrun) ?_)
    (totalDuration_measured_le hwell hout.covers (hout.disjoint hb) q)
  intro g hg
  obtain ⟨hmem, -⟩ := List.mem_filter.mp hg
  obtain ⟨r, hr, hmeasured⟩ := exists_run_of_mem_measured hmem
  exact (hout.timed g (List.mem_flatMap.mpr ⟨r, hr, hmeasured ▸ hmem⟩)).duration_nonneg

end DecodedBuffer

/-! ## Steps at one time -/

namespace DecodePhase

variable {D T : Type}

/-- The round has seen that the output does not reach too far, and has stored nothing since. -/
def isDue : DecodePhase D T → Bool
  | choosing _ _ | flushing _ _ | decoding _ _ _ | storing _ _ _ _ => true
  | _ => false

/-- The frame that is decoded and not stored yet. -/
def unstored? : DecodePhase D T → Option (EncodedFrame T)
  | storing _ _ frame _ => frame
  | _ => none

/-- The frame that is being decoded or stored, with what the round had read. -/
def taken? : DecodePhase D T → Option (DecodeSnapshot T × EncodedFrame T)
  | decoding _ s frame | storing _ s frame _ => frame.map (s, ·)
  | _ => none

/-- What the call that has just returned was for, and what it has returned. -/
def returned? : DecodePhase D T → Option (Option (EncodedFrame T) × List (DecodedFrame T))
  | storing _ _ frame decoded => some (frame, decoded)
  | _ => none

def isThrottling : DecodePhase D T → Bool
  | throttling _ _ => true
  | _ => false

theorem idle_of_between {p : DecodePhase D T} (hbetween : p.lease? = none) :
    p.readAt? = none ∧ p.taken? = none ∧ p.returned? = none ∧ p.unstored? = none := by
  cases p <;> simp_all [lease?, readAt?, taken?, returned?, unstored?]

theorem unstored?_of_isThrottling {p : DecodePhase D T} (hp : p.isThrottling = true) :
    p.unstored? = none := by
  cases p <;> simp_all [isThrottling, unstored?]

end DecodePhase

/-- The round under way turns a frame of `b`, the input `i`, into one of the output `o`. It begins
with a frame that is decoded at `t` or before. -/
structure DecodePhase.Converts (b : EncodedBuffer ExactTime) (i o : Nat) (t : ExactTime)
    (p : DecodePhase (PassThrough ExactTime) ExactTime) : Prop where
  leased : ∀ l ∈ p.lease?, l.input = i ∧ l.output = o
  taken : ∀ s f, p.taken? = some (s, f) → f ∈ b.toList ∧ (s.cursor = none → f.dts ≤ t)
  returned : ∀ frame decoded, p.returned? = some (frame, decoded) →
    (frame = none ∧ decoded = []) ∨
      ∃ f data, frame = some f ∧ decoded = [PassThrough.rawFrame f data]

namespace DecodePhase

variable {b : EncodedBuffer ExactTime} {i o : Nat} {t : ExactTime}
  {p : DecodePhase (PassThrough ExactTime) ExactTime}

theorem converts_of_lease (hleased : ∀ l ∈ p.lease?, l.input = i ∧ l.output = o)
    (htaken : p.taken? = none) (hreturned : p.returned? = none) : p.Converts b i o t where
  leased := hleased
  taken := by simp [htaken]
  returned := by simp [hreturned]

theorem Converts.mapLease {g : DecodeLease (PassThrough ExactTime) → DecodeLease _}
    (hp : p.Converts b i o t) (hg : ∀ l, (g l).input = l.input ∧ (g l).output = l.output) :
    (DecodeWorker.mapLease g p).Converts b i o t := by
  have hlease : (DecodeWorker.mapLease g p).lease? = p.lease?.map g := by cases p <;> rfl
  have htaken : (DecodeWorker.mapLease g p).taken? = p.taken? := by cases p <;> rfl
  have hreturned : (DecodeWorker.mapLease g p).returned? = p.returned? := by cases p <;> rfl
  refine ⟨fun l' hl' => ?_, htaken ▸ hp.taken, hreturned ▸ hp.returned⟩
  rw [hlease] at hl'
  obtain ⟨l, hl, rfl⟩ := Option.mem_map.mp hl'
  rw [(hg l).1, (hg l).2]
  exact hp.leased l hl

end DecodePhase

/-- The action is a step at the time `t` or leaves the input `i`, the output `o` and the cursor
alone, and attaches no others. -/
def DecodeAction.StaysAt {D T : Type} (i o : Nat) (t : T) : DecodeAction D T → Prop
  | .step time _ => time = t
  | .seek => False
  | .attach input output => input = i ∧ output = o
  | .editEncoded j _ => j ≠ i
  | .editDecoded j _ => j ≠ o
  | _ => True

namespace DecodeSystem

variable {settings : PipelineSettings ExactTime} {b : EncodedBuffer ExactTime} {i o : Nat}
  {t : ExactTime} {x : DecodeSystem (PassThrough ExactTime) ExactTime}
  {a : DecodeAction (PassThrough ExactTime) ExactTime}

/-- The loop fills the output `o` from the input `i`, which is `b`, at the time `t`. -/
structure Fills (b : EncodedBuffer ExactTime) (i o : Nat) (t : ExactTime)
    (x : DecodeSystem (PassThrough ExactTime) ExactTime) : Prop where
  attached : ∀ j ∈ x.worker.inputs.input, j = i
  outputs : ∀ j ∈ x.worker.inputs.output, j = o
  round : x.worker.phase.Converts b i o t
  time : ∀ n t', x.worker.phase.readAt? = some (n, t') → t' = t
  current : ∀ n ∈ x.worker.phase.seeksRead?, n = x.worker.seeks
  input : x.store.encodedAt i = b
  inStore : o < x.store.decoded.length

/-- What an action does to the output. -/
inductive Advances (settings : PipelineSettings ExactTime) (b : EncodedBuffer ExactTime)
    (t : ExactTime) (w w' : DecodeWorker (PassThrough ExactTime) ExactTime)
    (events : List (DecodeEvent ExactTime)) (out : DecodedBuffer ExactTime) :
    DecodedBuffer ExactTime → Prop
  | keep (hdue : w'.phase.isDue = true → w.phase.isDue = true)
      (hunstored : w'.phase.unstored? = w.phase.unstored?) (hcredit : w.credited events = []) :
    Advances settings b t w w' events out out
  | check (hphase : w.phase.isThrottling = true) (hunstored : w'.phase.unstored? = none)
      (hahead : ¬ settings.decodeBufferAhead < TimeRange.bufferedAhead out.ranges t)
      (hcredit : w.credited events = []) :
    Advances settings b t w w' events out (DecodeWorker.evict settings t out)
  | decode {l : DecodeLease (PassThrough ExactTime)} {s : DecodeSnapshot ExactTime}
      {f : EncodedFrame ExactTime} (hphase : w.phase = .decoding l s (some f))
      (hunstored : w'.phase.unstored? = some f) (hcredit : w.credited events = [f]) :
    Advances settings b t w w' events out out
  | store {f : EncodedFrame ExactTime} (data : Bytes) (hf : f ∈ b.toList)
      (hdue : w.phase.isDue = true) (hdone : w'.phase.isDue = false)
      (hbefore : w.phase.unstored? = some f) (hunstored : w'.phase.unstored? = none)
      (hcredit : w.credited events = []) :
    Advances settings b t w w' events out (out.add (PassThrough.rawFrame f data))

theorem mem_of_chooseFrame {s : DecodeSnapshot ExactTime} {f : EncodedFrame ExactTime}
    (hb : b.IsTimeline) (hf : DecodeWorker.chooseFrame b s = some f) : f ∈ b.toList := by
  unfold DecodeWorker.chooseFrame at hf
  split at hf
  · exact mem_toList_of_mem_getFrame hf
  · next dts _ =>
    rw [getFrame_after hb.isSpaced.laid.frames_ne_nil hb.isSpaced.laid.ascending] at hf
    exact List.mem_of_find?_eq_some hf

theorem dts_le_of_chooseFrame {s : DecodeSnapshot ExactTime} {f : EncodedFrame ExactTime}
    (hb : b.IsTimeline) (hcursor : s.cursor = none)
    (hf : DecodeWorker.chooseFrame b s = some f) : f.dts ≤ s.time := by
  simp only [DecodeWorker.chooseFrame, hcursor] at hf
  have hle := (isKeyFrame_of_mem_getFrame hf).2
  rw [hb.order] at hle
  exact hle

theorem Fills.advances_step {duration : Option ExactTime} (hx : x.Fills b i o t) :
    Advances settings b t x.worker (x.act settings (.step t duration)).1.worker
      (x.act settings (.step t duration)).2 (x.store.decodedAt o)
      ((x.act settings (.step t duration)).1.store.decodedAt o) := by
  simp only [act]
  have hstep := DecodeWorker.steps_step settings t duration x.worker x.store
  generalize x.worker.step settings t duration x.store = r at hstep ⊢
  cases hstep with
  | rest _ => exact .keep id rfl (by simp [DecodeWorker.credited])
  | @evict l s hphase hahead =>
      have ho : l.output = o := (hx.round.leased l (by rw [hphase]; rfl)).2
      have ht : s.time = t := hx.time s.seeks s.time (by rw [hphase]; rfl)
      rw [BufferStore.decodedAt_editDecoded _ _ _ hx.inStore, if_pos ho, ht]
      rw [ho, ht] at hahead
      exact .check (by rw [hphase]; rfl) rfl hahead (by simp [DecodeWorker.credited])
  | @choose l s f hphase hframe =>
      refine .keep (fun _ => by rw [hphase]; rfl) (by rw [hphase]; rfl) ?_
      unfold DecodeWorker.credited
      split_ifs <;> simp [DecodeEvent.decodedFrame?]
  | @decode l s frame decoded decoder hphase hdecode =>
      have hread : s.seeks = x.worker.seeks := hx.current s.seeks (by rw [hphase]; rfl)
      cases frame with
      | none =>
          refine .keep (fun _ => by rw [hphase]; rfl) (by rw [hphase]; rfl) ?_
          simp [DecodeWorker.credited, DecodeEvent.decodedFrame?]
      | some f =>
          refine .decode hphase rfl ?_
          simp [DecodeWorker.credited, DecodeEvent.decodedFrame?, DecodePhase.seeksRead?, hphase,
            hread]
  | @discard l s frame decoded hphase hseeks =>
      exact absurd (hx.current s.seeks (by rw [hphase]; rfl)).symm hseeks
  | @storeFlushed l s decoded hphase hseeks =>
      rcases hx.round.returned none decoded (by rw [hphase]; rfl) with
        ⟨-, rfl⟩ | ⟨f, data, hnone, -⟩
      · have ho : l.output = o := (hx.round.leased l (by rw [hphase]; rfl)).2
        rw [BufferStore.decodedAt_editDecoded _ _ _ hx.inStore, if_pos ho]
        exact .keep (absurd · Bool.false_ne_true) (by rw [hphase]; rfl)
          (by simp [DecodeWorker.credited])
      · cases hnone
  | @store l s f decoded hphase hseeks =>
      rcases hx.round.returned (some f) decoded (by rw [hphase]; rfl) with
        ⟨hnone, -⟩ | ⟨f', data, hf', rfl⟩
      · cases hnone
      · cases hf'
        have ho : l.output = o := (hx.round.leased l (by rw [hphase]; rfl)).2
        rw [BufferStore.decodedAt_editDecoded _ _ _ hx.inStore, if_pos ho]
        exact .store data (hx.round.taken s f (by rw [hphase]; rfl)).1 (by rw [hphase]; rfl) rfl
          (by rw [hphase]; rfl) rfl (by simp [DecodeWorker.credited])
  | @giveBack l next hphase =>
      have hbefore : x.worker.phase.unstored? = none := by rw [hphase]; rfl
      refine .keep ?_ (hbefore.symm ▸ ?_) (by simp [DecodeWorker.credited])
      · cases next <;> exact (absurd · Bool.false_ne_true)
      · cases next <;> rfl
  | miss hphase _ | flush hphase _ _ =>
      refine .keep (fun _ => by rw [hphase]; rfl) (by rw [hphase]; rfl) ?_
      unfold DecodeWorker.credited
      split_ifs <;> simp [DecodeEvent.decodedFrame?]
  | exit hphase _ | check hphase _ | abandon hphase _ | lease hphase _ _ _ _ | park hphase _
  | unpark hphase _ | countSeeks hphase | readTime hphase | readCursor hphase
  | throttle hphase _ | starve hphase _ | awaitKey hphase _ _ | breakOff hphase _ _
  | advance hphase _ | keepCursor hphase _ | finishSeek hphase _ _ | settle hphase _
  | fail hphase =>
      refine .keep (absurd · Bool.false_ne_true) (by rw [hphase]; rfl) ?_
      unfold DecodeWorker.credited
      split_ifs <;> simp [DecodeEvent.decodedFrame?]

theorem Fills.converts_step {duration : Option ExactTime} (hx : x.Fills b i o t)
    (hb : b.IsTimeline) :
    (x.act settings (.step t duration)).1.worker.phase.Converts b i o t := by
  simp only [act]
  have hstep := DecodeWorker.steps_step settings t duration x.worker x.store
  generalize x.worker.step settings t duration x.store = r at hstep ⊢
  cases hstep with
  | rest _ => exact hx.round
  | lease _ _ hinput houtput _ =>
      refine DecodePhase.converts_of_lease ?_ rfl rfl
      simpa [DecodePhase.lease?] using ⟨hx.attached _ hinput, hx.outputs _ houtput⟩
  | @choose l s f hphase hframe =>
      have hl := hx.round.leased l (by rw [hphase]; rfl)
      rw [hl.1, hx.input] at hframe
      refine ⟨?_, ?_, ?_⟩
      · simpa [DecodePhase.lease?] using hl
      · rintro _ _ ⟨⟩
        refine ⟨mem_of_chooseFrame hb hframe, fun hcursor => ?_⟩
        rw [← hx.time s.seeks s.time (by rw [hphase]; rfl)]
        exact dts_le_of_chooseFrame hb hcursor hframe
      · simp [DecodePhase.returned?]
  | @decode l s frame decoded decoder hphase hdecode =>
      refine ⟨?_, ?_, ?_⟩
      · simpa [DecodePhase.lease?] using hx.round.leased l (by rw [hphase]; rfl)
      · exact fun s f hf => hx.round.taken s f (by rw [hphase]; exact hf)
      · simpa [DecodePhase.returned?] using PassThrough.decode_eq_ok hdecode
  | @giveBack l next hphase =>
      cases next <;> exact DecodePhase.converts_of_lease (by simp [DecodePhase.lease?]) rfl rfl
  | @miss l s hphase _ | @awaitKey l s _ _ _ hphase _ _ | @breakOff l s _ _ _ hphase _ _ =>
      refine DecodePhase.converts_of_lease ?_ rfl rfl
      simpa [DecodePhase.lease?] using hx.round.leased l (by rw [hphase]; rfl)
  | @flush l s hphase _ _ =>
      refine ⟨?_, ?_, ?_⟩
      · exact fun l' hl' => hx.round.leased l' (by rw [hphase]; exact hl')
      · simp [DecodePhase.taken?]
      · simp [DecodePhase.returned?]
  | countSeeks hphase | readTime hphase | readCursor hphase | throttle hphase _
  | evict hphase _ | starve hphase _ | discard hphase _ | storeFlushed hphase _ | store hphase _
  | advance hphase _ | keepCursor hphase _ | finishSeek hphase _ _ | settle hphase _ =>
      refine DecodePhase.converts_of_lease (fun l' hl' => ?_) rfl rfl
      exact hx.round.leased l' (by rw [hphase]; exact hl')
  | exit | check | abandon | park | unpark | fail =>
      exact DecodePhase.converts_of_lease (by simp [DecodePhase.lease?]) rfl rfl

theorem seeks_act (ha : a ≠ .seek) :
    (x.act settings a).1.worker.seeks = x.worker.seeks := by
  cases a with
  | step time duration => exact DecodeWorker.step_seeks
  | seek => exact absurd rfl ha
  | wake =>
      simp only [act, DecodeWorker.wake]
      split <;> rfl
  | _ => rfl

theorem Fills.act (hx : x.Fills b i o t) (hb : b.IsTimeline) (ha : a.StaysAt i o t) :
    (x.act settings a).1.Fills b i o t := by
  have htime : ∀ n t', (x.act settings a).1.worker.phase.readAt? = some (n, t') → t' = t := by
    intro n t' hread
    rcases readAt?_act hread with hbefore | ⟨duration, rfl⟩
    · exact hx.time n t' hbefore
    · exact ha
  have hseek : a ≠ .seek := by
    rintro rfl
    exact ha
  have hcurrent : ∀ n ∈ (x.act settings a).1.worker.phase.seeksRead?,
      n = (x.act settings a).1.worker.seeks := by
    intro n hn
    rw [seeks_act hseek]
    exact (seeksRead?_act hn).elim id (hx.current n)
  have hlength : o < (x.act settings a).1.store.decoded.length := by
    rw [length_act]
    exact hx.inStore
  cases a with
  | step time duration =>
      obtain rfl : time = t := ha
      refine ⟨?_, ?_, hx.converts_step hb, htime, hcurrent, ?_, hlength⟩
      · simp only [DecodeSystem.act]
        rw [DecodeWorker.step_inputs]
        exact hx.attached
      · exact fun j hj => hx.outputs j (DecodeWorker.step_output.symm.trans hj)
      · have hencoded := DecodeLedger.encoded_step settings time duration x.worker x.store
        rw [← hx.input]
        simp only [DecodeSystem.act, BufferStore.encodedAt, hencoded]
  | seek => exact absurd rfl hseek
  | wake =>
      refine ⟨?_, ?_, ?_, htime, hcurrent, hx.input, hlength⟩ <;>
        simp only [DecodeSystem.act, DecodeWorker.wake] <;> split
      · exact hx.attached
      · exact hx.attached
      · exact hx.outputs
      · exact hx.outputs
      · exact DecodePhase.converts_of_lease (by simp [DecodePhase.lease?]) rfl rfl
      · exact hx.round
  | attach input output =>
      refine ⟨?_, ?_, hx.round, htime, hcurrent, hx.input, hlength⟩
      · simpa [DecodeSystem.act, DecodeWorker.attach] using ha.1
      · simpa [DecodeSystem.act, DecodeWorker.attach] using ha.2
  | detach =>
      refine ⟨?_, ?_, hx.round, htime, hcurrent, hx.input, hlength⟩ <;>
        simp [DecodeSystem.act, DecodeWorker.detach]
  | mapRing f =>
      refine ⟨hx.attached, hx.outputs, ?_, htime, hcurrent, hx.input, hlength⟩
      exact hx.round.mapLease fun _ => ⟨rfl, rfl⟩
  | editEncoded j edit =>
      refine ⟨hx.attached, hx.outputs, hx.round, htime, hcurrent, ?_, hlength⟩
      rcases BufferStore.encodedAt_editEncoded x.store i j (·.edit edit) with hsame | ⟨rfl, -⟩
      · exact hsame.trans hx.input
      · exact absurd rfl ha
  | _ => exact ⟨hx.attached, hx.outputs, hx.round, htime, hcurrent, hx.input, hlength⟩

theorem Advances.shows {w w' : DecodeWorker (PassThrough ExactTime) ExactTime}
    {events : List (DecodeEvent ExactTime)} {out out' : DecodedBuffer ExactTime}
    (h : Advances settings b t w w' events out out') (hb : b.IsTimeline) (hout : out.Shows b) :
    out'.Shows b := by
  cases h with
  | keep | decode => exact hout
  | check => exact hout.evict settings
  | store data hf => exact hout.add hb hf data

theorem Fills.advances (settings : PipelineSettings ExactTime) (hx : x.Fills b i o t)
    (ha : a.StaysAt i o t) :
    Advances settings b t x.worker (x.act settings a).1.worker (x.act settings a).2
      (x.store.decodedAt o) ((x.act settings a).1.store.decodedAt o) := by
  have hquiet : x.worker.credited [] = [] := by simp [DecodeWorker.credited]
  cases a with
  | step time duration =>
      obtain rfl : time = t := ha
      exact hx.advances_step
  | seek => exact ha.elim
  | wake =>
      simp only [DecodeSystem.act, DecodeWorker.wake]
      split
      · next hphase =>
          exact .keep (absurd · Bool.false_ne_true) (by rw [hphase]; rfl) hquiet
      · exact .keep id rfl hquiet
  | mapRing f =>
      simp only [DecodeSystem.act, DecodeWorker.mapRing]
      refine .keep ?_ ?_ hquiet <;> cases x.worker.phase <;> first | exact id | rfl
  | editDecoded j edit =>
      have hother : j ≠ o := ha
      simp only [DecodeSystem.act]
      rw [BufferStore.decodedAt_editDecoded _ _ _ hx.inStore, if_neg hother]
      exact .keep id rfl hquiet
  | _ => exact .keep id rfl hquiet

/-! ## Staying within the bound -/

/-- The loop is about to look whether to decode another frame, and will. -/
def GoesOn (settings : PipelineSettings ExactTime) (o : Nat) (t : ExactTime)
    (x : DecodeSystem (PassThrough ExactTime) ExactTime) : Prop :=
  x.worker.phase.isThrottling = true ∧
    ¬ settings.decodeBufferAhead < TimeRange.bufferedAhead (x.store.decodedAt o).ranges t

/-- The output lasts no longer than the bound and one frame, and than the bound alone once the loop
has decided to decode that frame. -/
structure Restrained (settings : PipelineSettings ExactTime) (b : EncodedBuffer ExactTime) (o : Nat)
    (t : ExactTime) (x : DecodeSystem (PassThrough ExactTime) ExactTime) : Prop where
  due : x.worker.phase.isDue = true →
    DecodedBuffer.ahead (x.store.decodedAt o) t ≤ settings.decodeBufferAhead
  bounded : DecodedBuffer.ahead (x.store.decodedAt o) t ≤ settings.decodeBufferAhead ∨
    ∃ f ∈ b.toList,
      DecodedBuffer.ahead (x.store.decodedAt o) t ≤ settings.decodeBufferAhead + f.duration

theorem Restrained.act {q : ℚ} (hx : x.Restrained settings b o (.finite q))
    (hfill : x.Fills b i o (.finite q)) (hshows : DecodedBuffer.Shows (x.store.decodedAt o) b)
    (hb : b.IsTimeline) (ha : a.StaysAt i o (.finite q))
    (hrun : x.GoesOn settings o (.finite q) →
      DecodedBuffer.InOneRun (x.store.decodedAt o) (.finite q)) :
    (x.act settings a).1.Restrained settings b o (.finite q) := by
  have hadvance := hfill.advances settings ha
  generalize hout : (x.act settings a).1.store.decodedAt o = out at hadvance
  cases hadvance with
  | keep hdue _ _ =>
      refine ⟨?_, ?_⟩ <;> rw [hout]
      · exact fun hnow => hx.due (hdue hnow)
      · exact hx.bounded
  | check hphase _ hahead _ =>
      have hbound : DecodedBuffer.ahead (x.store.decodedAt o) (.finite q) ≤
          settings.decodeBufferAhead :=
        le_trans (hshows.ahead_le_bufferedAhead hb (hrun ⟨hphase, hahead⟩))
          (le_of_not_lt (ExactTime.refl _) (ExactTime.refl _) hahead)
      have hevict := le_trans (hshows.ahead_evict_le settings) hbound
      refine ⟨?_, ?_⟩ <;> rw [hout]
      · exact fun _ => hevict
      · exact .inl hevict
  | decode hphase _ _ =>
      refine ⟨?_, ?_⟩ <;> rw [hout]
      · exact fun _ => hx.due (by rw [hphase]; rfl)
      · exact hx.bounded
  | @store f data hf hdue hdone _ _ _ =>
      refine ⟨?_, ?_⟩ <;> rw [hout]
      · exact fun hnow => absurd (hdone.symm.trans hnow) Bool.false_ne_true
      · refine .inr ⟨f, hf, le_trans (hshows.ahead_add_le hb hf data) ?_⟩
        exact ExactTime.add_le_add_right (hx.due hdue) _

theorem Fills.actAll {as : List (DecodeAction (PassThrough ExactTime) ExactTime)}
    (settings : PipelineSettings ExactTime) (hx : x.Fills b i o t)
    (hshows : DecodedBuffer.Shows (x.store.decodedAt o) b)
    (hb : b.IsTimeline) (has : ∀ a ∈ as, a.StaysAt i o t) :
    (x.actAll settings as).Fills b i o t ∧
      DecodedBuffer.Shows ((x.actAll settings as).store.decodedAt o) b := by
  induction as generalizing x with
  | nil => exact ⟨hx, hshows⟩
  | cons a as ih =>
      obtain ⟨ha, hlater⟩ := List.forall_mem_cons.mp has
      exact ih (hx.act hb ha) ((hx.advances settings ha).shows hb hshows) hlater

theorem Restrained.actAll {q : ℚ} {as : List (DecodeAction (PassThrough ExactTime) ExactTime)}
    (hx : x.Restrained settings b o (.finite q)) (hfill : x.Fills b i o (.finite q))
    (hshows : DecodedBuffer.Shows (x.store.decodedAt o) b) (hb : b.IsTimeline)
    (has : ∀ a ∈ as, a.StaysAt i o (.finite q))
    (hrun : ∀ before, before <+: as → (x.actAll settings before).GoesOn settings o (.finite q) →
      DecodedBuffer.InOneRun ((x.actAll settings before).store.decodedAt o) (.finite q)) :
    (x.actAll settings as).Restrained settings b o (.finite q) := by
  induction as using List.reverseRecOn with
  | nil => exact hx
  | append_singleton as a ih =>
      obtain ⟨hbefore, ha⟩ := List.forall_mem_append.mp has
      have hpart : as <+: as ++ [a] := List.prefix_append as [a]
      have hnow := ih hbefore fun before hle => hrun before (hle.trans hpart)
      obtain ⟨hfill', hshows'⟩ := hfill.actAll settings hshows hb hbefore
      have hstep : x.actAll settings (as ++ [a]) = ((x.actAll settings as).act settings a).1 := by
        simp [DecodeSystem.actAll]
      rw [hstep]
      exact hnow.act hfill' hshows' hb (ha a List.mem_cons_self) (hrun as hpart)

end DecodeSystem

end MediaPipeline
