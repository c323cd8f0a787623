import MediaPipeline.Proofs.Decoding.Ahead

/-!
# Decoding a stream without gaps

Where the frames of a stream follow one another without a gap, in the order of decoding, everything
that is decoded and not yet evicted forms one run, which begins in front of the current time. So
the loop measures all of it and stays within its bound. A gap is enough for the loop to go on
decoding without a bound.
-/

namespace MediaPipeline

open MediaTime LawfulMediaTime FrameBuffer

def Frame.span {F T : Type} [Frame F T] [MediaTime T] (f : F) : TimeRange T :=
  ⟨pts f, presentationEnd f⟩

@[simp] theorem PassThrough.span_rawFrame {T : Type} [MediaTime T] {f : EncodedFrame T}
    {data : Bytes} : Frame.span (rawFrame f data) = Frame.span f := by
  simp only [Frame.span, Frame.presentationEnd, pts_rawFrame, duration_rawFrame]
  rfl

/-- Frames that are shown in decode order and without a gap, beginning at the time `t` or before,
none of which lasts longer than frames are kept behind `t`. -/
structure EncodedBuffer.IsGapless (b : EncodedBuffer ExactTime) (behind t : ExactTime) : Prop where
  ascending : b.toList.Pairwise fun f g => f.pts < g.pts
  linked : b.toList.IsChain fun f g => g.pts ≤ f.pts + f.duration + maxGap
  duration_pos : ∀ f ∈ b.toList, 0 < f.duration
  duration_le : ∀ f ∈ b.toList, f.duration ≤ behind
  opening : ∀ k ∈ b.toList, k.isKeyFrame = true → k.dts ≤ t → k.pts < t + maxGap

namespace FrameBuffer

variable {F T : Type} [Frame F T] [MediaTime T]

/-- Runs that are out of reach of each other are one run at most if each frame reaches the next. -/
theorem runs_eq_singleton_of_linked {order : FrameOrder} {r : Run F T} {rs : List (Run F T)}
    (hsep : Separated order (r :: rs)) (hne : ∀ s ∈ r :: rs, s.frames ≠ [])
    (hlinked : ((r :: rs).flatMap Run.frames).IsChain fun f g => order.reaches f g = true) :
    rs = [] := by
  cases rs with
  | nil => rfl
  | cons next rs =>
      obtain ⟨hr, hlater⟩ := List.forall_mem_cons.mp hne
      obtain ⟨hnext, -⟩ := List.forall_mem_cons.mp hlater
      obtain ⟨first, firsts, hfirst⟩ := List.exists_cons_of_ne_nil hnext
      rw [List.flatMap_cons, List.isChain_append] at hlinked
      have hreach := hlinked.2.2 (r.frames.getLast hr) (List.getLast?_eq_some_getLast hr) first
        (by simp [hfirst])
      have htouch : touches order r next = true := by
        simp [touches, hfirst, Run.reachesFrame, List.getLast?_eq_some_getLast hr, hreach]
      have hapart := (List.isChain_cons_cons.mp hsep).1
      exact absurd (hapart.symm.trans htouch) Bool.false_ne_true

end FrameBuffer

/-- What is over by more than a frame lasts is over at the time. -/
theorem ExactTime.add_lt_of_lt_sub {a d e : ExactTime} {q : ℚ} (ha : a < .finite q - e)
    (hd : d ≤ e) : a + d < .finite q := by
  rw [sub_eq] at ha
  rw [lt_iff_not_le] at *
  cases a <;> cases d <;> cases e <;> simp_all [ExactTime.neg]
  linarith

theorem ExactTime.add_maxGap_lt {a : ExactTime} {q : ℚ} (ha : a < .finite q) :
    a + maxGap < .finite q + maxGap := by
  have hgap : (maxGap : ExactTime) = .finite (OfScientific.ofScientific 15 true 2) := rfl
  rw [hgap]
  rw [lt_iff_not_le] at *
  cases a <;> simp_all

theorem Frame.lt_presentationEnd {F : Type} [Frame F ExactTime] {f : F} (hf : Frame.IsTimed f)
    (hpos : 0 < Frame.duration f) : Frame.pts f < Frame.presentationEnd f := by
  have hpts := hf.pts
  unfold Frame.presentationEnd
  rw [ExactTime.zero_eq] at hpos
  rw [ExactTime.lt_iff_not_le] at *
  cases h : Frame.pts f <;> cases h' : Frame.duration f <;>
    simp_all [isFinite, ExactTime.lt_iff_not_le, negInf, posInf]

namespace DecodedBuffer

variable {out : DecodedBuffer ExactTime} {b : EncodedBuffer ExactTime} {f : EncodedFrame ExactTime}
  {t : ExactTime}

theorem Shows.toList_add_of_forall_lt (hout : out.Shows b) (hb : b.IsTimeline) (hf : f ∈ b.toList)
    (data : Bytes) (hlast : ∀ g ∈ out.toList, Frame.pts g < f.pts) :
    (out.add (PassThrough.rawFrame f data)).toList =
      out.toList ++ [PassThrough.rawFrame f data] := by
  rw [hout.isSeparated.toList_add (PassThrough.isTimed_rawFrame (hb.timed f hf) data),
    hout.order]
  have hlt : ∀ g ∈ out.toList,
      FrameOrder.pts.key g < FrameOrder.pts.key (PassThrough.rawFrame f data) := by
    simpa [FrameOrder.key] using hlast
  have hupdate : FrameOrder.pts.update (PassThrough.rawFrame f data) (out.toList ++ []) =
      out.toList ++ [PassThrough.rawFrame f data] := FrameOrder.update_append_of_forall_lt hlt
  rwa [List.append_nil] at hupdate

/-- Eviction takes away a first part of the output, which began long before `t`. -/
theorem Shows.exists_evicted (hout : out.Shows b) (settings : PipelineSettings ExactTime) :
    ∃ evicted, out.toList = evicted ++ FrameBuffer.toList (DecodeWorker.evict settings t out) ∧
      ∀ g ∈ evicted, Frame.pts g < t - settings.evictionBehind := by
  unfold DecodeWorker.evict
  dsimp only
  split_ifs
  · have hruns : ∀ r ∈ out.runs, FrameOrder.pts.Ascending r.frames := fun r hr =>
      hout.order ▸ Coherent.ascending_of_mem hout.isSeparated.coherent hr
    rw [toList_remove_negInf (fun _ => rfl) (ExactTime.refl _) hruns]
    refine ⟨_, (hout.ascending.filter_append_filter (ExactTime.refl _)).symm, fun g hg => ?_⟩
    exact of_decide_eq_true (List.mem_filter.mp hg).2
  · exact ⟨[], rfl, by simp⟩

end DecodedBuffer

namespace DecodeLedger

variable {settings : PipelineSettings ExactTime} {b : EncodedBuffer ExactTime} {i o : Nat}
  {t : ExactTime} {y : DecodeLedger (PassThrough ExactTime) ExactTime}
  {a : DecodeAction (PassThrough ExactTime) ExactTime}

/-- The output holds the decoded frames but for those that are evicted, and for one that is not
stored yet. -/
structure Retains (settings : PipelineSettings ExactTime) (b : EncodedBuffer ExactTime) (i o : Nat)
    (t : ExactTime) (y : DecodeLedger (PassThrough ExactTime) ExactTime) : Prop where
  fills : y.system.Fills b i o t
  inOrder : y.InOrder i
  shows : DecodedBuffer.Shows (y.system.store.decodedAt o) b
  opening : ∀ k ∈ y.decoded.head?, k.dts ≤ t
  kept : ∃ evicted, y.decoded.map Frame.span = evicted ++
      (FrameBuffer.toList (y.system.store.decodedAt o)).map Frame.span ++
        y.system.worker.phase.unstored?.toList.map Frame.span ∧
    ∀ r ∈ evicted, r.start < t - settings.evictionBehind

theorem admits_of_staysAt (ha : a.StaysAt i o t) : y.Admits i (ExtendsCall i) a := by
  cases a with
  | attach input output => exact ha.1
  | editEncoded j edit =>
      cases edit with
      | add f => exact fun hj => absurd hj ha
      | _ => exact ha
  | seek => exact ha
  | _ => trivial

theorem Retains.dts_le {l : DecodeLease (PassThrough ExactTime)} {s : DecodeSnapshot ExactTime}
    {f : EncodedFrame ExactTime} (hy : y.Retains settings b i o t)
    (hphase : y.system.worker.phase = .decoding l s (some f)) (hfirst : y.decoded = []) :
    f.dts ≤ t := by
  have hcurrent : s.seeks = y.system.worker.seeks :=
    hy.fills.current s.seeks (by rw [hphase]; rfl)
  have hread : s.cursor = y.system.worker.cursor :=
    hy.inOrder.follows.read s (by rw [hphase]; rfl) hcurrent
  have hcursor : y.system.worker.cursor = none := by
    simpa [DecodeWorker.outlook, DecodeWorker.nextCursor, hphase, hfirst] using
      hy.inOrder.follows.cursor
  exact (hy.fills.round.taken s f (by rw [hphase]; rfl)).2 (hread.trans hcursor)

theorem Retains.opening_act {out : DecodedBuffer ExactTime} (hy : y.Retains settings b i o t)
    (hadvance : DecodeSystem.Advances settings b t y.system.worker
      (y.act settings a).system.worker (y.system.act settings a).2
      (y.system.store.decodedAt o) out) : ∀ k ∈ (y.act settings a).decoded.head?, k.dts ≤ t := by
  have hdecoded : (y.act settings a).decoded =
      y.decoded ++ y.system.worker.credited (y.system.act settings a).2 := rfl
  rw [hdecoded]
  cases hadvance with
  | @decode l s f hphase hunstored hcredit =>
      rw [hcredit]
      cases hfirst : y.decoded with
      | nil => simpa using hy.dts_le hphase hfirst
      | cons k ks => simpa [hfirst] using hy.opening
  | keep _ _ hcredit | check _ _ _ hcredit | store _ _ _ _ _ _ hcredit =>
      rw [hcredit, List.append_nil]
      exact hy.opening

theorem Retains.forall_pts_lt {f : EncodedFrame ExactTime} (hy : y.Retains settings b i o t)
    (hgapless : b.IsGapless settings.evictionBehind t)
    (hf : y.system.worker.phase.unstored? = some f) :
    ∀ g ∈ FrameBuffer.toList (y.system.store.decodedAt o), Frame.pts g < f.pts := by
  obtain ⟨evicted, hsplit, -⟩ := hy.kept
  have hinput : b = y.input i := hy.fills.input.symm
  have hasc : (y.decoded.map Frame.span).Pairwise fun r s => r.start < s.start := by
    rw [List.pairwise_map]
    exact hgapless.ascending.sublist (hinput ▸ hy.inOrder.stretch.sublist)
  rw [hsplit, hf] at hasc
  intro g hg
  have hlt := (List.pairwise_append.mp hasc).2.2 (Frame.span g)
    (List.mem_append_right _ (List.mem_map_of_mem hg)) (Frame.span f) (by simp)
  exact hlt

theorem Retains.kept_act {out : DecodedBuffer ExactTime} (hy : y.Retains settings b i o t)
    (hb : b.IsTimeline) (hgapless : b.IsGapless settings.evictionBehind t)
    (hadvance : DecodeSystem.Advances settings b t y.system.worker
      (y.act settings a).system.worker (y.system.act settings a).2
      (y.system.store.decodedAt o) out) :
    ∃ evicted, (y.act settings a).decoded.map Frame.span = evicted ++
        (FrameBuffer.toList out).map Frame.span ++
          (y.act settings a).system.worker.phase.unstored?.toList.map Frame.span ∧
      ∀ r ∈ evicted, r.start < t - settings.evictionBehind := by
  have hdecoded : (y.act settings a).decoded =
      y.decoded ++ y.system.worker.credited (y.system.act settings a).2 := rfl
  obtain ⟨evicted, hsplit, hevicted⟩ := hy.kept
  rw [hdecoded]
  cases hadvance with
  | keep _ hunstored hcredit =>
      refine ⟨evicted, ?_, hevicted⟩
      rw [hcredit, List.append_nil, hunstored, hsplit]
  | check hphase hunstored _ hcredit =>
      have hbefore := DecodePhase.unstored?_of_isThrottling hphase
      obtain ⟨more, hlist, hmore⟩ := hy.shows.exists_evicted (t := t) settings
      refine ⟨evicted ++ more.map Frame.span, ?_, ?_⟩
      · rw [hcredit, List.append_nil, hunstored, hsplit, hbefore, hlist]
        simp
      · intro r hr
        rcases List.mem_append.mp hr with hr | hr
        · exact hevicted r hr
        · obtain ⟨g, hg, rfl⟩ := List.mem_map.mp hr
          exact hmore g hg
  | @decode l s f hphase hunstored hcredit =>
      have hbefore : y.system.worker.phase.unstored? = none := by rw [hphase]; rfl
      refine ⟨evicted, ?_, hevicted⟩
      rw [hcredit, hunstored, List.map_append, hsplit, hbefore]
      simp
  | @store f data hf _ _ hbefore hunstored hcredit =>
      refine ⟨evicted, ?_, hevicted⟩
      rw [hcredit, List.append_nil, hunstored, hsplit, hbefore,
        hy.shows.toList_add_of_forall_lt hb hf data (hy.forall_pts_lt hgapless hbefore)]
      simp

theorem Retains.act (hy : y.Retains settings b i o t) (hb : b.IsTimeline)
    (hgapless : b.IsGapless settings.evictionBehind t) (ha : a.StaysAt i o t) :
    (y.act settings a).Retains settings b i o t := by
  have hadvance := hy.fills.advances settings ha
  exact ⟨hy.fills.act hb ha, hy.inOrder.act (admits_of_staysAt ha), hadvance.shows hb hy.shows,
    hy.opening_act hadvance, hy.kept_act hb hgapless hadvance⟩

theorem Retains.actAll {as : List (DecodeAction (PassThrough ExactTime) ExactTime)}
    (hy : y.Retains settings b i o t) (hb : b.IsTimeline)
    (hgapless : b.IsGapless settings.evictionBehind t) (has : ∀ a ∈ as, a.StaysAt i o t) :
    (y.actAll settings as).Retains settings b i o t := by
  induction as generalizing y with
  | nil => exact hy
  | cons a as ih =>
      obtain ⟨ha, hlater⟩ := List.forall_mem_cons.mp has
      exact ih (hy.act hb hgapless ha) hlater

theorem Retains.linked (hy : y.Retains settings b i o t)
    (hgapless : b.IsGapless settings.evictionBehind t) :
    (y.decoded.map Frame.span).IsChain fun r s => s.start ≤ r.stop + maxGap := by
  have hinput : b = y.input i := hy.fills.input.symm
  rw [List.isChain_map]
  exact hgapless.linked.infix (hinput ▸ hy.inOrder.stretch)

/-- The output begins in front of the time: with the frame that was decoded first, or with one that
follows an evicted frame. -/
theorem Retains.pts_head_lt {q : ℚ} (hy : y.Retains settings b i o (.finite q))
    (hgapless : b.IsGapless settings.evictionBehind (.finite q))
    (hstored : y.system.worker.phase.unstored? = none) {h : DecodedFrame ExactTime}
    {hs : List (DecodedFrame ExactTime)}
    (hhead : FrameBuffer.toList (y.system.store.decodedAt o) = h :: hs) :
    Frame.pts h < .finite q + maxGap := by
  obtain ⟨evicted, hsplit, hevicted⟩ := hy.kept
  have hlinked := hy.linked hgapless
  have hmem : ∀ f ∈ y.decoded, f ∈ b.toList := by
    have hinput : b = y.input i := hy.fills.input.symm
    exact fun f hf => hinput ▸ hy.inOrder.stretch.subset hf
  rw [hstored, Option.toList_none, List.map_nil, List.append_nil, hhead, List.map_cons] at hsplit
  rcases List.eq_nil_or_concat evicted with rfl | ⟨before, r, rfl⟩
  · obtain ⟨k, ks, hk, hspan, -⟩ := List.map_eq_cons_iff.mp hsplit
    have hpts : k.pts = Frame.pts h := congrArg TimeRange.start hspan
    have hfirst : k ∈ y.decoded.head? := by simp [hk]
    rw [← hpts]
    exact hgapless.opening k (hmem k (by simp [hk])) (hy.inOrder.startsAtKey k hfirst)
      (hy.opening k hfirst)
  · rw [hsplit, List.concat_eq_append] at hlinked
    have hnext : Frame.pts h ≤ r.stop + maxGap :=
      (List.isChain_append.mp hlinked).2.2 r (by simp) (Frame.span h) (by simp)
    obtain ⟨f, hf, rfl⟩ : ∃ f ∈ y.decoded, Frame.span f = r := by
      apply List.mem_map.mp
      simp [hsplit]
    have hbegin : f.pts < .finite q - settings.evictionBehind := hevicted (Frame.span f) (by simp)
    have hover : f.pts + f.duration < .finite q :=
      ExactTime.add_lt_of_lt_sub hbegin (hgapless.duration_le f (hmem f hf))
    exact lt_of_le_of_lt hnext (ExactTime.add_maxGap_lt hover)

/-- Where nothing is waiting to be stored, what is decoded and not evicted forms one run. -/
theorem Retains.inOneRun {q : ℚ} (hy : y.Retains settings b i o (.finite q))
    (hgapless : b.IsGapless settings.evictionBehind (.finite q))
    (hstored : y.system.worker.phase.unstored? = none) :
    DecodedBuffer.InOneRun (y.system.store.decodedAt o) (.finite q) := by
  intro g hg
  obtain ⟨hmem, hle⟩ := List.mem_filter.mp hg
  have hne := hy.shows.isSeparated.isSpaced.laid.frames_ne_nil
  have hsep := hy.shows.isSeparated.separated
  rw [hy.shows.order] at hsep
  have hlinked : (FrameBuffer.toList (y.system.store.decodedAt o)).IsChain
      fun g h => FrameOrder.pts.reaches g h = true := by
    obtain ⟨evicted, hsplit, -⟩ := hy.kept
    have hall := hy.linked hgapless
    rw [hsplit, List.append_assoc, List.isChain_append, List.isChain_append,
      List.isChain_map] at hall
    exact hall.2.1.1.imp fun _ _ hreach => decide_eq_true hreach
  have hcovers := hy.shows.covers
  cases hruns : (y.system.store.decodedAt o).runs with
  | nil => simp [FrameBuffer.toList, hruns] at hmem
  | cons r rs =>
      rw [hruns] at hne hsep hcovers
      obtain rfl : rs = [] := by
        refine runs_eq_singleton_of_linked hsep hne ?_
        simpa [FrameBuffer.toList, hruns] using hlinked
      have hlist : FrameBuffer.toList (y.system.store.decodedAt o) = r.frames := by
        simp [FrameBuffer.toList, hruns]
      have hstop : .finite q < r.stop := by
        have htimed := hy.shows.timed g hmem
        obtain ⟨f, hf, data, rfl⟩ := hy.shows.source g hmem
        have hpos : 0 < Frame.duration (PassThrough.rawFrame f data) :=
          PassThrough.duration_rawFrame.symm ▸ hgapless.duration_pos f hf
        have hend := (hcovers r List.mem_cons_self _ (hlist ▸ hmem)).2
        exact lt_of_le_of_lt (of_decide_eq_true hle)
          (lt_of_lt_of_le (Frame.lt_presentationEnd htimed hpos) hend)
      have hstart : r.start < .finite q + maxGap := by
        obtain ⟨h, hs, hframes⟩ := List.exists_cons_of_ne_nil (hne r List.mem_cons_self)
        have hbegin := (hcovers r List.mem_cons_self h (by simp [hframes])).1
        exact lt_of_le_of_lt hbegin (hy.pts_head_lt hgapless hstored (hlist.trans hframes))
      simpa [FrameBuffer.measured, hruns, hstop, hstart, hlist] using hmem

end DecodeLedger

/-! ## From a fresh start -/

theorem mem_of_mem_addAll {F T : Type} [Frame F T] [MediaTime T] {order : FrameOrder} {fs : List F}
    {f : F} (hf : f ∈ ((FrameBuffer.empty order).addAll fs : FrameBuffer F T).toList) : f ∈ fs := by
  rw [← editAll_map_add] at hf
  rcases mem_toList_editAll hf with hadd | hempty
  · simpa using hadd
  · simp [FrameBuffer.empty, FrameBuffer.toList] at hempty

theorem isTimeline_addAll {fs : List (EncodedFrame ExactTime)}
    (htimed : ∀ f ∈ fs, Frame.IsTimed f)
    (hdisjoint : ∀ f ∈ fs, ∀ g ∈ fs, f.pts < g.pts → f.pts + f.duration ≤ g.pts) :
    EncodedBuffer.IsTimeline ((FrameBuffer.empty .dts).addAll fs) := by
  have hkeyed : ∀ f ∈ fs, FrameOrder.dts.IsKeyed f := fun f hf => (htimed f hf).isKeyed .dts
  obtain ⟨hspaced, horder⟩ :=
    DecodeLedger.isSpaced_addAll ⟨FrameBuffer.isSpaced_empty .dts, rfl⟩ hkeyed
  exact ⟨horder, hspaced, fun f hf => htimed f (mem_of_mem_addAll hf),
    fun f hf g hg => hdisjoint f (mem_of_mem_addAll hf) g (mem_of_mem_addAll hg)⟩

namespace DecodeSystem

variable {settings : PipelineSettings ExactTime} {fs : List (EncodedFrame ExactTime)} {i o : Nat}
  {x : DecodeSystem (PassThrough ExactTime) ExactTime}

/-- Nothing is decoded yet, and the output is empty. -/
structure IsFresh (fs : List (EncodedFrame ExactTime)) (i o : Nat)
    (x : DecodeSystem (PassThrough ExactTime) ExactTime) : Prop where
  between : x.worker.phase.lease? = none
  cursor : x.worker.cursor = none
  attached : ∀ j ∈ x.worker.inputs.input, j = i
  outputs : ∀ j ∈ x.worker.inputs.output, j = o
  input : x.store.encodedAt i = (FrameBuffer.empty .dts).addAll fs
  inStore : o < x.store.decoded.length
  empty : x.store.decodedAt o = FrameBuffer.empty .pts

theorem IsFresh.retains (hx : x.IsFresh fs i o) (settings : PipelineSettings ExactTime)
    (hfs : EncodedBuffer.IsTimeline ((FrameBuffer.empty .dts).addAll fs)) (t : ExactTime) :
    (DecodeLedger.start x).Retains settings ((FrameBuffer.empty .dts).addAll fs) i o t := by
  have hbegins : DecodeLedger.Begins settings x := .start hx.between hx.cursor
  obtain ⟨hfollow, hidle⟩ := hbegins.follows hx.attached (by simp [hx.between])
  have hinput : (DecodeLedger.start x).input i = (FrameBuffer.empty .dts).addAll fs := hx.input
  obtain ⟨hread, htaken, hreturned, hstored⟩ := DecodePhase.idle_of_between hx.between
  have hfills : x.Fills ((FrameBuffer.empty .dts).addAll fs) i o t := by
    refine ⟨hx.attached, hx.outputs, ?_, by simp [hread], ?_, hx.input, hx.inStore⟩
    · exact DecodePhase.converts_of_lease (by simp [hx.between]) htaken hreturned
    · simp [DecodePhase.seeksRead?_of_between hx.between]
  have hinOrder : (DecodeLedger.start x).InOrder i := by
    refine ⟨hfollow, ?_, ?_, List.nil_infix, by simp [DecodeLedger.start], ?_⟩
    · exact hinput.symm ▸ hfs.order
    · exact hinput.symm ▸ hfs.isSpaced
    · simp [DecodeLedger.start, hidle]
  refine ⟨hfills, hinOrder, ?_, by simp [DecodeLedger.start], [], ?_, by simp⟩
  · have hempty : DecodedBuffer.Shows (FrameBuffer.empty .pts)
        ((FrameBuffer.empty .dts).addAll fs) := by
      refine ⟨rfl, isSeparated_of_runs_eq_nil rfl, ?_, ?_⟩ <;>
        simp [FrameBuffer.empty, FrameBuffer.toList]
    exact hx.empty.symm ▸ hempty
  · simp [DecodeLedger.start, hstored, hx.empty, FrameBuffer.empty, FrameBuffer.toList]

/-- With the time fixed and frames that do not overlap, what is decoded and shown from that time on
lasts no longer than the bound and one frame if the stream has no gaps, or if all of it lies in the
run that is measured whenever the loop decides to decode another frame. -/
theorem ahead_bounded (hbound : 0 ≤ settings.decodeBufferAhead)
    (htimed : ∀ f ∈ fs, Frame.IsTimed f)
    (hdisjoint : ∀ f ∈ fs, ∀ g ∈ fs, f.pts < g.pts → f.pts + f.duration ≤ g.pts)
    (hx : x.IsFresh fs i o) {q : ℚ}
    {as : List (DecodeAction (PassThrough ExactTime) ExactTime)}
    (has : ∀ a ∈ as, a.StaysAt i o (.finite q))
    (hgaps : EncodedBuffer.IsGapless ((FrameBuffer.empty .dts).addAll fs) settings.evictionBehind
        (.finite q) ∨
      ∀ before, before <+: as → (x.actAll settings before).GoesOn settings o (.finite q) →
        DecodedBuffer.InOneRun ((x.actAll settings before).store.decodedAt o) (.finite q)) :
    DecodedBuffer.ahead ((x.actAll settings as).store.decodedAt o) (.finite q) ≤
        settings.decodeBufferAhead ∨
      ∃ f ∈ fs, DecodedBuffer.ahead ((x.actAll settings as).store.decodedAt o) (.finite q) ≤
        settings.decodeBufferAhead + f.duration := by
  have hfs := isTimeline_addAll htimed hdisjoint
  have hretains := hx.retains settings hfs (.finite q)
  have hempty : DecodedBuffer.ahead (x.store.decodedAt o) (.finite q) ≤
      settings.decodeBufferAhead := by
    rw [hx.empty]
    exact hbound
  have hrestrained : x.Restrained settings ((FrameBuffer.empty .dts).addAll fs) o (.finite q) :=
    ⟨fun _ => hempty, .inl hempty⟩
  have hruns : ∀ before, before <+: as →
      (x.actAll settings before).GoesOn settings o (.finite q) →
      DecodedBuffer.InOneRun ((x.actAll settings before).store.decodedAt o) (.finite q) := by
    rcases hgaps with hgapless | hruns
    · intro before hbefore hgoes
      have hnow := hretains.actAll hfs hgapless fun a ha => has a (hbefore.subset ha)
      have hsystem : ((DecodeLedger.start x).actAll settings before).system =
          x.actAll settings before := DecodeLedger.system_actAll before
      have hstored := DecodePhase.unstored?_of_isThrottling hgoes.1
      rw [← hsystem] at hstored ⊢
      exact hnow.inOneRun hgapless hstored
    · exact hruns
  have hend := hrestrained.actAll hretains.fills hretains.shows hfs has hruns
  refine hend.bounded.imp id ?_
  rintro ⟨f, hf, hle⟩
  exact ⟨f, mem_of_mem_addAll hf, hle⟩

/-! ## A gap behind the first frame -/

def halfSecond (pts : ℚ) : EncodedFrame ExactTime :=
  ⟨.finite pts, .finite pts, .finite (1 / 2), true, .video 0 "h264" 1 1, [], none⟩

def exactSystem (fs : List (EncodedFrame ExactTime)) :
    DecodeSystem (PassThrough ExactTime) ExactTime where
  worker := (DecodeWorker.new.setDecoder (some {})).attach 0 0
  store := (BufferStore.new 1).editEncoded 0 (·.addAll fs)

/-- The loop makes `n` steps at the start of the media. -/
def stepsAtZero (n : Nat) : List (DecodeAction (PassThrough ExactTime) ExactTime) :=
  List.replicate n (.step (.finite 0) none)

theorem isFresh_exactSystem (fs : List (EncodedFrame ExactTime)) :
    (exactSystem fs).IsFresh fs 0 0 := by
  refine ⟨rfl, rfl, ?_, ?_, rfl, Nat.zero_lt_one, rfl⟩ <;>
    simp [exactSystem, DecodeWorker.attach]

theorem staysAt_stepsAtZero {n : Nat} : ∀ a ∈ stepsAtZero n, a.StaysAt 0 0 (.finite 0) := by
  intro a ha
  rw [List.eq_of_mem_replicate ha]
  rfl

theorem isTimed_halfSecond (pts : ℚ) : Frame.IsTimed (halfSecond pts) := by
  have hduration : (0 : ExactTime) ≤ .finite (1 / 2) := by decide +kernel
  exact ⟨rfl, rfl, rfl, hduration⟩

def gapless : List (EncodedFrame ExactTime) := [0, 1 / 2, 1, 3 / 2, 2].map halfSecond

theorem ahead_bounded_gapless :
    DecodedBuffer.ahead (((exactSystem gapless).actAll .default
        (stepsAtZero 60)).store.decodedAt 0) (.finite 0) ≤
        PipelineSettings.default.decodeBufferAhead ∨
      ∃ f ∈ gapless, DecodedBuffer.ahead (((exactSystem gapless).actAll .default
        (stepsAtZero 60)).store.decodedAt 0) (.finite 0) ≤
          PipelineSettings.default.decodeBufferAhead + f.duration := by
  have hgapless : EncodedBuffer.IsGapless ((FrameBuffer.empty .dts).addAll gapless)
      PipelineSettings.default.evictionBehind (.finite 0) :=
    ⟨by decide +kernel, by decide +kernel, by decide +kernel, by decide +kernel,
      by decide +kernel⟩
  have htimed : ∀ f ∈ gapless, Frame.IsTimed f := by
    intro f hf
    obtain ⟨pts, -, rfl⟩ := List.mem_map.mp hf
    exact isTimed_halfSecond pts
  exact ahead_bounded (by decide +kernel) htimed (by decide +kernel) (isFresh_exactSystem gapless)
    staysAt_stepsAtZero (.inl hgapless)

/-- Behind the first frame there is a gap of half a second. -/
def withGap : List (EncodedFrame ExactTime) := [0, 1, 3 / 2, 2].map halfSecond

/-- Two seconds are decoded where a second and a half is the most. -/
theorem ahead_not_bounded :
    ¬ ∀ fs : List (EncodedFrame ExactTime), (∀ f ∈ fs, Frame.IsTimed f) →
      (∀ f ∈ fs, ∀ g ∈ fs, f.pts < g.pts → f.pts + f.duration ≤ g.pts) →
      ∀ x, IsFresh fs 0 0 x → ∀ as, (∀ a ∈ as, a.StaysAt 0 0 (.finite 0)) →
        let ahead := DecodedBuffer.ahead ((x.actAll .default as).store.decodedAt 0) (.finite 0)
        ahead ≤ PipelineSettings.default.decodeBufferAhead ∨
          ∃ f ∈ fs, ahead ≤ PipelineSettings.default.decodeBufferAhead + f.duration := by
  intro hbounded
  have htimed : ∀ f ∈ withGap, Frame.IsTimed f := by
    intro f hf
    obtain ⟨pts, -, rfl⟩ := List.mem_map.mp hf
    exact isTimed_halfSecond pts
  have hahead := hbounded withGap htimed (by decide +kernel) (exactSystem withGap)
    (isFresh_exactSystem withGap) (stepsAtZero 48) staysAt_stepsAtZero
  exact absurd hahead (by decide +kernel)

end DecodeSystem

end MediaPipeline
