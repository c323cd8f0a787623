import MediaPipeline.Proofs.Demuxing.Runs
import MediaPipeline.Proofs.Monitor.SeekInPoll

/-!
# Backpressure

A demux worker rests while more than its target is buffered ahead, and the monitor lets playback go
on only if what it takes to play is buffered ahead. The two amounts are settings of their own. The
one leaves room for the other exactly if the target is not below what it takes to play; otherwise
the demux worker can wait for the playhead while the playhead waits for the demux worker.
-/

namespace MediaPipeline

open MediaTime

/-! ## Two measures of the same spans -/

theorem ExactTime.add_le_of_lt_sub {a c d : ExactTime} (h : d < c - a) : a + d ≤ c := by
  rw [sub_eq, lt_iff_not_le] at h
  cases a <;> cases c <;> cases d <;> simp_all [ExactTime.neg]
  linarith

namespace TimeRange

open ExactTime

variable {ranges : List (TimeRange ExactTime)} {t limit : ExactTime}

/-- What is ahead of a time lies in one span that begins there, with the gap tolerance. -/
theorem exists_of_lt_bufferedAhead (hlimit : 0 ≤ limit) (hahead : limit < bufferedAhead ranges t) :
    ∃ r ∈ ranges, r.start ≤ t + maxGap ∧ t + limit ≤ r.stop := by
  unfold bufferedAhead at hahead
  split at hahead
  · next r hfind =>
    split_ifs at hahead with hstart
    · refine ⟨r, List.mem_of_find?_eq_some hfind, le_of_lt hstart, ?_⟩
      have hfrom : t + limit ≤ later t r.start + limit :=
        ExactTime.add_le_add_right (le_later (ExactTime.refl t) (ExactTime.refl r.start)).1 limit
      exact LawfulMediaTime.le_trans hfrom (add_le_of_lt_sub hahead)
    · exact absurd hlimit (not_le_of_lt hahead)
  · exact absurd hlimit (not_le_of_lt hahead)

theorem isBufferedUntil_of_lt_bufferedAhead (hlimit : 0 ≤ limit)
    (hahead : limit < bufferedAhead ranges t) {need : ExactTime} (hneed : need ≤ limit)
    (duration : Option ExactTime) (delta : ExactTime) :
    isBufferedUntil ranges t (t + need) duration delta = true := by
  obtain ⟨r, hr, hstart, hstop⟩ := exists_of_lt_bufferedAhead hlimit hahead
  refine isBufferedUntil_iff.mpr ⟨r, hr, hstart, Or.inl ?_⟩
  rw [ExactTime.add_comm t] at hstop ⊢
  exact LawfulMediaTime.le_trans (ExactTime.add_le_add_right hneed t) hstop

end TimeRange

/-! ## Valid settings -/

namespace PipelineSettings

theorem IsValid.exists_finite {settings : PipelineSettings ExactTime} (hvalid : settings.IsValid) :
    ∃ p q : ℚ, 0 < p ∧ settings.demuxBufferAhead = .finite p ∧
      settings.needForPlay = .finite q := by
  have hamounts := hvalid.amounts
  simp only [PipelineSettings.amounts, List.forall_mem_cons] at hamounts
  obtain ⟨-, ⟨htarget, hpos⟩, ⟨hneed, -⟩, -⟩ := hamounts
  obtain ⟨p, hp⟩ := ExactTime.exists_eq_finite htarget
  obtain ⟨q, hq⟩ := ExactTime.exists_eq_finite hneed
  rw [hp] at hpos
  exact ⟨p, q, ExactTime.finite_lt_finite.mp hpos, hp, hq⟩

end PipelineSettings

/-! ## Holding back -/

namespace DemuxWorker

variable {X A T : Type} [MediaTime T] [Demuxer X T] {settings : PipelineSettings T}
  {w : DemuxWorker X A T} {ranges : List (TimeRange T)} {t : T}

/-- The loop has measured what is ahead of `t`, there is a segment to process, and it goes to sleep
instead. -/
structure HoldsBack (settings : PipelineSettings T) (w : DemuxWorker X A T)
    (ranges : List (TimeRange T)) (t : T) : Prop where
  measured : w.phase = .locking (TimeRange.bufferedAhead ranges t)
  queued : w.queue ≠ []
  sleeps : ∀ now output, (w.step settings now output).1.rest = .sleeping settings.noDataBackoff

theorem holdsBack_iff :
    w.HoldsBack settings ranges t ↔
      w.phase = .locking (TimeRange.bufferedAhead ranges t) ∧ w.queue ≠ [] ∧
        w.shutdown = false ∧ settings.demuxBufferAhead < TimeRange.bufferedAhead ranges t := by
  constructor
  · rintro ⟨hphase, hqueue, hsleeps⟩
    refine ⟨hphase, hqueue, ?_⟩
    have hstep := steps_step settings t w (.empty .dts)
    have hrest := hsleeps t (.empty .dts)
    generalize w.step settings t (.empty .dts) = r at hstep hrest
    cases hstep with
    | throttle hlocking hstop _ hahead =>
        rw [hphase, DemuxPhase.locking.injEq] at hlocking
        exact ⟨hstop, hlocking ▸ hahead⟩
    | park _ _ hempty => exact absurd hempty hqueue
    | rest hresting => simp [DemuxWorker.rest, hphase] at hresting
    | quit | refuse | demux | breakOff => simp [DemuxWorker.rest] at hrest
    | _ => simp_all
  · rintro ⟨hphase, hqueue, hstop, hahead⟩
    refine ⟨hphase, hqueue, fun now output => ?_⟩
    obtain ⟨a, queue, hsplit⟩ := List.exists_cons_of_ne_nil hqueue
    simp [step, underLock, hphase, hstop, hsplit, hahead, DemuxWorker.rest]

end DemuxWorker

/-! ## The demux worker and the monitor together -/

/-- A pipeline, the monitor that watches what is buffered for it, and the worker that fills the
buffer. -/
structure StreamedPipeline (X A T : Type) where
  demuxing : DemuxSystem X A T
  playback : MonitoredPipeline T

/-- What the two loops do by themselves, while no other thread acts. -/
inductive StreamAction (T : Type) where
  | demux
  | wakeDemuxer
  /-- The monitor makes a step; this is what is decoded at that moment. -/
  | poll (decoded : List (TimeRange T))
  | wakeMonitor
  | advance (nanos : Nat)

namespace StreamedPipeline

variable {X A T : Type} [MediaTime T] [Demuxer X T] {settings : PipelineSettings T}
  {x : StreamedPipeline X A T}

def ranges (x : StreamedPipeline X A T) : List (TimeRange T) := x.demuxing.output.ranges

def time (x : StreamedPipeline X A T) : T := x.playback.time

def act (settings : PipelineSettings T) (x : StreamedPipeline X A T) :
    StreamAction T → StreamedPipeline X A T
  | .demux => { x with demuxing := (x.demuxing.act settings (.step x.time)).1 }
  | .wakeDemuxer => { x with demuxing := (x.demuxing.act settings .wake).1 }
  | .poll decoded => { x with playback := x.playback.act settings (.poll x.ranges decoded) }
  | .wakeMonitor => { x with playback := x.playback.act settings .wake }
  | .advance nanos => { x with playback := x.playback.act settings (.advance nanos) }

def actAll (settings : PipelineSettings T) (x : StreamedPipeline X A T)
    (as : List (StreamAction T)) : StreamedPipeline X A T :=
  as.foldl (act settings) x

end StreamedPipeline

/-! ## Starving -/

section Starving

variable {X A T : Type} [MediaTime T]

/-- What the demux loop knows is what is ahead of `t` in `ranges`, and it has nothing to report. -/
def DemuxPhase.Measures (ranges : List (TimeRange T)) (t : T) : DemuxPhase A T → Prop
  | checking | timing | sleeping _ => True
  | measuring time => time = t
  | locking ahead => ahead = TimeRange.bufferedAhead ranges t
  | parked | reporting _ _ | exited => False

omit [MediaTime T] in
/-- What the monitor has read in a poll is `ranges`, `t` and `duration`, and it calls only to
stall. -/
def MonitorPhase.Watches (ranges : List (TimeRange T)) (t : T) (duration : Option T) :
    MonitorPhase T → Prop
  | checking | waiting | readingBuffered | sleeping _ | exited => True
  | readingDecoded buffered | readingTime buffered _ => buffered = ranges
  | readingDuration buffered _ time => buffered = ranges ∧ time = t
  | deciding r | classifying r => ∃ decoded, r = ⟨ranges, decoded, t, duration⟩
  | calling r call => (∃ decoded, r = ⟨ranges, decoded, t, duration⟩) ∧ call = .bufferingStarted

namespace StreamedPipeline

variable {settings : PipelineSettings T} {x : StreamedPipeline X A T}

/-- There is a segment to process, but too much is ahead for the demux worker to do that, and too
little for the stalled playback to go on. -/
structure IsStarved (settings : PipelineSettings T) (x : StreamedPipeline X A T) : Prop where
  stalled : x.playback.pipeline.status = .stalled
  queued : x.demuxing.worker.queue ≠ []
  serving : x.demuxing.worker.shutdown = false
  full : settings.demuxBufferAhead < TimeRange.bufferedAhead x.ranges x.time
  short : TimeRange.isBufferedUntil x.ranges x.time (x.time + settings.needForPlay)
    x.playback.pipeline.duration settings.endDelta = false
  beforeEnd : ∀ d ∈ x.playback.pipeline.duration, ¬ d ≤ x.time
  measures : x.demuxing.worker.phase.Measures x.ranges x.time
  watches : x.playback.monitor.phase.Watches x.ranges x.time x.playback.pipeline.duration

namespace IsStarved

theorem time_eq (hx : x.IsStarved settings) : x.time = x.playback.pipeline.syncMedia := by
  simp [time, MonitoredPipeline.time, Pipeline.currentTime, hx.stalled]

/-- Playback starves on while neither loop gets to know anything else. -/
theorem update (hx : x.IsStarved settings) {phase : DemuxPhase A T} {monitor : Monitor T}
    (hmeasures : phase.Measures x.ranges x.time)
    (hwatches : monitor.phase.Watches x.ranges x.time x.playback.pipeline.duration) (now : Nat) :
    IsStarved settings (X := X)
      ⟨⟨{ x.demuxing.worker with phase }, x.demuxing.output⟩,
        ⟨monitor, x.playback.pipeline, now⟩⟩ := by
  set y : StreamedPipeline X A T := ⟨_, _⟩
  have htime : y.time = x.time := by
    rw [hx.time_eq]
    simp [y, time, MonitoredPipeline.time, Pipeline.currentTime, hx.stalled]
  exact ⟨hx.stalled, hx.queued, hx.serving, htime ▸ hx.full, htime ▸ hx.short,
    htime ▸ hx.beforeEnd, htime ▸ hmeasures, htime ▸ hwatches⟩

theorem exists_wake (hx : x.IsStarved settings) :
    ∃ phase, phase.Measures x.ranges x.time ∧
      x.demuxing.worker.wake = { x.demuxing.worker with phase } := by
  unfold DemuxWorker.wake
  split
  · exact ⟨.checking, trivial, rfl⟩
  · exact ⟨_, hx.measures, rfl⟩

theorem watches_wake (hx : x.IsStarved settings) :
    x.playback.monitor.wake.phase.Watches x.ranges x.time x.playback.pipeline.duration := by
  unfold Monitor.wake
  split
  · trivial
  · exact hx.watches

/-- The monitor asks for what it has already. -/
theorem verdict_eq (hx : x.IsStarved settings) (decoded : List (TimeRange T)) :
    PollReading.verdict settings ⟨x.ranges, decoded, x.time, x.playback.pipeline.duration⟩
      .stalled = some .bufferingStarted := by
  have hend : PollReading.atEnd ⟨x.ranges, decoded, x.time, x.playback.pipeline.duration⟩ =
      false := by
    unfold PollReading.atEnd
    split
    · next d hd => exact decide_eq_false (hx.beforeEnd d hd)
    · rfl
  simp [PollReading.verdict, hend, PollReading.playable, PollReading.reaches, hx.short]

theorem exists_poll (hx : x.IsStarved settings) (decoded : List (TimeRange T)) :
    ∃ monitor : Monitor T,
      monitor.phase.Watches x.ranges x.time x.playback.pipeline.duration ∧
        x.playback.act settings (.poll x.ranges decoded) = { x.playback with monitor } := by
  have hwatches := hx.watches
  have hcheck : x.playback.monitor.check.phase.Watches x.ranges x.time
      x.playback.pipeline.duration := by
    unfold Monitor.check
    split_ifs <;> trivial
  unfold MonitoredPipeline.act Monitor.step
  dsimp only
  cases hphase : x.playback.monitor.phase with
  | checking | waiting => exact ⟨_, hcheck, rfl⟩
  | readingBuffered => exact ⟨{ x.playback.monitor with phase := .readingDecoded _ }, rfl, rfl⟩
  | readingDecoded buffered =>
      rw [hphase] at hwatches
      exact ⟨{ x.playback.monitor with phase := .readingTime _ _ }, hwatches, rfl⟩
  | readingTime buffered decoded' =>
      rw [hphase] at hwatches
      exact ⟨{ x.playback.monitor with phase := .readingDuration _ _ _ }, ⟨hwatches, rfl⟩, rfl⟩
  | readingDuration buffered decoded' t =>
      rw [hphase] at hwatches
      obtain ⟨rfl, rfl⟩ := hwatches
      exact ⟨{ x.playback.monitor with phase := .deciding _ }, ⟨decoded', rfl⟩, rfl⟩
  | deciding r =>
      rw [hphase] at hwatches
      obtain ⟨decoded', rfl⟩ := hwatches
      simp only [MonitoredPipeline.view, hx.stalled, hx.verdict_eq]
      exact ⟨{ x.playback.monitor with phase := .calling _ _ }, ⟨⟨decoded', rfl⟩, rfl⟩, rfl⟩
  | calling r call =>
      rw [hphase] at hwatches
      obtain ⟨hr, rfl⟩ := hwatches
      refine ⟨{ x.playback.monitor with phase := .classifying r }, hr, ?_⟩
      simp [MonitoredPipeline.follow, Pipeline.call, Pipeline.bufferingStarted, hx.stalled]
  | classifying r =>
      dsimp only
      split_ifs
      · exact ⟨{ x.playback.monitor with phase := .sleeping _ }, trivial, rfl⟩
      · exact ⟨{ x.playback.monitor with phase := .sleeping _, ready := _ }, trivial, rfl⟩
  | sleeping nanos =>
      rw [hphase] at hwatches
      exact ⟨x.playback.monitor, hphase ▸ hwatches, rfl⟩
  | exited =>
      rw [hphase] at hwatches
      exact ⟨x.playback.monitor, hphase ▸ hwatches, rfl⟩

variable [Demuxer X T]

theorem exists_step (hx : x.IsStarved settings) :
    ∃ phase : DemuxPhase A T, phase.Measures x.ranges x.time ∧
      x.demuxing.worker.step settings x.time x.demuxing.output =
        ({ x.demuxing.worker with phase }, x.demuxing.output, []) := by
  have hmeasures := hx.measures
  have hstep := DemuxWorker.steps_step settings x.time x.demuxing.worker x.demuxing.output
  generalize x.demuxing.worker.step settings x.time x.demuxing.output = r at hstep
  cases hstep with
  | check => exact ⟨.timing, trivial, rfl⟩
  | readTime => exact ⟨.measuring x.time, rfl, rfl⟩
  | @measure t hphase =>
      rw [hphase] at hmeasures
      obtain rfl : t = x.time := hmeasures
      exact ⟨.locking _, rfl, rfl⟩
  | throttle => exact ⟨.sleeping _, trivial, rfl⟩
  | rest => exact ⟨_, hmeasures, rfl⟩
  | exit _ hstop | quit _ hstop => exact absurd (hstop.symm.trans hx.serving) (by decide)
  | park _ _ hempty => exact absurd hempty hx.queued
  | refuse hphase _ _ hahead | demux hphase _ _ hahead | breakOff hphase _ _ hahead =>
      rw [hphase] at hmeasures
      exact absurd (hmeasures ▸ hx.full) hahead
  | unpark hphase | report hphase | fail hphase | again hphase =>
      rw [hphase] at hmeasures
      exact hmeasures.elim

theorem exists_act (hx : x.IsStarved settings) (a : StreamAction T) :
    ∃ (phase : DemuxPhase A T) (monitor : Monitor T) (now : ℕ),
      phase.Measures x.ranges x.time ∧
        monitor.phase.Watches x.ranges x.time x.playback.pipeline.duration ∧
          x.act settings a =
            ⟨⟨{ x.demuxing.worker with phase }, x.demuxing.output⟩,
              ⟨monitor, x.playback.pipeline, now⟩⟩ := by
  cases a with
  | demux =>
      obtain ⟨phase, hmeasures, hstep⟩ := hx.exists_step
      refine ⟨phase, x.playback.monitor, x.playback.now, hmeasures, hx.watches, ?_⟩
      simp only [StreamedPipeline.act, DemuxSystem.act, hstep]
  | wakeDemuxer =>
      obtain ⟨phase, hmeasures, hwake⟩ := hx.exists_wake
      refine ⟨phase, x.playback.monitor, x.playback.now, hmeasures, hx.watches, ?_⟩
      simp only [StreamedPipeline.act, DemuxSystem.act, hwake]
  | poll decoded =>
      obtain ⟨monitor, hwatches, hpoll⟩ := hx.exists_poll decoded
      refine ⟨x.demuxing.worker.phase, monitor, x.playback.now, hx.measures, hwatches, ?_⟩
      simp only [StreamedPipeline.act, hpoll]
  | wakeMonitor =>
      exact ⟨x.demuxing.worker.phase, x.playback.monitor.wake, x.playback.now, hx.measures,
        hx.watches_wake, rfl⟩
  | advance nanos =>
      exact ⟨x.demuxing.worker.phase, x.playback.monitor, x.playback.now + nanos, hx.measures,
        hx.watches, rfl⟩

/-- Neither loop moves the other on. -/
theorem act (hx : x.IsStarved settings) (a : StreamAction T) :
    (x.act settings a).IsStarved settings ∧
      (x.act settings a).playback.pipeline = x.playback.pipeline ∧
        (x.act settings a).demuxing.output = x.demuxing.output ∧
          (x.act settings a).demuxing.worker.queue = x.demuxing.worker.queue := by
  obtain ⟨phase, monitor, now, hmeasures, hwatches, hact⟩ := hx.exists_act a
  rw [hact]
  exact ⟨hx.update hmeasures hwatches now, rfl, rfl, rfl⟩

/-- As long as no other thread acts, a pipeline that starves does so for ever. -/
theorem actAll (hx : x.IsStarved settings) (as : List (StreamAction T)) :
    (x.actAll settings as).IsStarved settings ∧
      (x.actAll settings as).playback.pipeline = x.playback.pipeline ∧
        (x.actAll settings as).demuxing.output = x.demuxing.output ∧
          (x.actAll settings as).demuxing.worker.queue = x.demuxing.worker.queue := by
  induction as generalizing x with
  | nil => exact ⟨hx, rfl, rfl, rfl⟩
  | cons a as ih =>
      obtain ⟨hnext, hpipeline, houtput, hqueue⟩ := hx.act a
      obtain ⟨hlast, hpipeline', houtput', hqueue'⟩ := ih hnext
      exact ⟨hlast, hpipeline'.trans hpipeline, houtput'.trans houtput, hqueue'.trans hqueue⟩

end IsStarved

end StreamedPipeline

end Starving

/-! ## Both loops rest only if the target is too low -/

namespace TimeRange

theorem bufferedAhead_single {q : ℚ} (hq : 0 < q) :
    bufferedAhead [⟨0, .finite q⟩] 0 = ExactTime.finite q := by
  have hpos : (0 : ExactTime) < .finite q := ExactTime.finite_lt_finite.mpr hq
  have hstart : (0 : ExactTime) < maxGap := by decide +kernel
  have hlater : later (0 : ExactTime) 0 = 0 := by decide +kernel
  simp [bufferedAhead, hpos, hstart, hlater, ExactTime.sub_zero]

theorem isBufferedUntil_single {q need : ℚ} (hneed : q < need) (delta : ExactTime) :
    isBufferedUntil [⟨0, .finite q⟩] 0 (0 + ExactTime.finite need) none delta = false := by
  simp [isBufferedUntil, nearEnd, hneed]

end TimeRange

theorem DemuxWorker.HoldsBack.playable {X A : Type} [Demuxer X ExactTime]
    {settings : PipelineSettings ExactTime} {w : DemuxWorker X A ExactTime}
    {ranges : List (TimeRange ExactTime)} {t : ExactTime} (hw : w.HoldsBack settings ranges t)
    (hvalid : settings.IsValid) (hle : settings.needForPlay ≤ settings.demuxBufferAhead)
    (duration : Option ExactTime) :
    TimeRange.isBufferedUntil ranges t (t + settings.needForPlay) duration settings.endDelta =
      true := by
  obtain ⟨p, -, hp, htarget, -⟩ := hvalid.exists_finite
  have hpositive : 0 ≤ settings.demuxBufferAhead := by
    rw [htarget]
    exact ExactTime.finite_le_finite.mpr hp.le
  obtain ⟨-, -, -, hahead⟩ := holdsBack_iff.mp hw
  exact TimeRange.isBufferedUntil_of_lt_bufferedAhead hpositive hahead hle _ _

namespace StreamedPipeline

variable {X A : Type} {settings : PipelineSettings ExactTime}

def keyFrame (t duration : ExactTime) (data : Bytes) : EncodedFrame ExactTime where
  pts := t
  dts := t
  duration
  isKeyFrame := true
  stream := .video 0 "h264" 1 1
  data
  encryption := none

/-- Stalled at the start, with one frame in the buffer and one more segment to process. -/
def bufferedTo (stop : ExactTime) (demuxer : X) (a : Append A ExactTime) :
    StreamedPipeline X A ExactTime where
  demuxing :=
    { worker := ((DemuxWorker.new.setDemuxer (some demuxer)).append a).1
      output := (FrameBuffer.empty .dts).add (keyFrame 0 stop []) }
  playback := ⟨.new, ((Pipeline.new 0).play 0).1.doneInitializing.1, 0⟩

theorem ranges_bufferedTo (stop : ExactTime) (demuxer : X) (a : Append A ExactTime) :
    (bufferedTo stop demuxer a).ranges = [⟨0, stop⟩] := by
  have hrange : (bufferedTo stop demuxer a).ranges = [⟨0, 0 + stop⟩] := rfl
  rw [hrange, ExactTime.zero_add]

/-- Between the two amounts there is one at which both loops rest. -/
theorem exists_isStarved (hvalid : settings.IsValid)
    (hlow : settings.demuxBufferAhead < settings.needForPlay) (demuxer : X)
    (a : Append A ExactTime) : ∃ x : StreamedPipeline X A ExactTime, x.IsStarved settings := by
  obtain ⟨p, q, hp, htarget, hneed⟩ := hvalid.exists_finite
  rw [htarget, hneed, ExactTime.finite_lt_finite] at hlow
  obtain ⟨r, hpr, hrq⟩ := exists_between hlow
  have hahead : settings.demuxBufferAhead < TimeRange.bufferedAhead [⟨0, .finite r⟩] 0 := by
    rw [htarget, TimeRange.bufferedAhead_single (hp.trans hpr)]
    exact ExactTime.finite_lt_finite.mpr hpr
  have hshort : TimeRange.isBufferedUntil [⟨0, .finite r⟩] 0 (0 + settings.needForPlay) none
      settings.endDelta = false := by
    rw [hneed]
    exact TimeRange.isBufferedUntil_single hrq _
  have hranges := ranges_bufferedTo (.finite r) demuxer a
  refine ⟨bufferedTo (.finite r) demuxer a, rfl, ?_, rfl, ?_, ?_, ?_, trivial, trivial⟩
  · exact List.cons_ne_nil a []
  · rw [hranges]
    exact hahead
  · rw [hranges]
    exact hshort
  · exact fun d hd => nomatch hd

variable [Demuxer X ExactTime]

theorem IsStarved.exists_holdsBack {x : StreamedPipeline X A ExactTime}
    (hx : x.IsStarved settings) :
    ∃ w : DemuxWorker X A ExactTime, w.HoldsBack settings x.ranges x.time :=
  ⟨{ x.demuxing.worker with phase := .locking (TimeRange.bufferedAhead x.ranges x.time) },
    DemuxWorker.holdsBack_iff.mpr ⟨rfl, hx.queued, hx.serving, hx.full⟩⟩

/-- With valid settings, what a demux worker that holds back has measured counts as enough to play
exactly if what it takes to play is not above the worker's target. If it is above, the worker and
the monitor can come to wait for each other, and then they do so for ever. -/
theorem holdsBack_playable_iff (hvalid : settings.IsValid) (demuxer : X)
    (a : Append A ExactTime) :
    ((∀ (w : DemuxWorker X A ExactTime) (ranges : List (TimeRange ExactTime)) (t : ExactTime)
        (duration : Option ExactTime), w.HoldsBack settings ranges t →
          TimeRange.isBufferedUntil ranges t (t + settings.needForPlay) duration
            settings.endDelta = true) ↔
      settings.needForPlay ≤ settings.demuxBufferAhead) ∧
    ((∃ x : StreamedPipeline X A ExactTime, x.IsStarved settings) ↔
      settings.demuxBufferAhead < settings.needForPlay) ∧
    ∀ x : StreamedPipeline X A ExactTime, x.IsStarved settings → ∀ as,
      (x.actAll settings as).playback.pipeline = x.playback.pipeline ∧
        (x.actAll settings as).demuxing.output = x.demuxing.output := by
  refine ⟨⟨fun hclaim => ?_, fun hle w ranges t duration hw => hw.playable hvalid hle duration⟩,
    ⟨fun hstarved => ?_, fun hlow => exists_isStarved hvalid hlow demuxer a⟩, ?_⟩
  · by_contra hnot
    obtain ⟨x, hx⟩ := exists_isStarved hvalid (ExactTime.lt_iff_not_le.mpr hnot) demuxer a
    obtain ⟨w, hw⟩ := hx.exists_holdsBack
    exact absurd (hx.short.symm.trans (hclaim w _ _ _ hw)) (by decide)
  · obtain ⟨x, hx⟩ := hstarved
    obtain ⟨w, hw⟩ := hx.exists_holdsBack
    rw [ExactTime.lt_iff_not_le]
    intro hle
    exact absurd (hx.short.symm.trans (hw.playable hvalid hle _)) (by decide)
  · intro x hx as
    obtain ⟨-, hpipeline, houtput, -⟩ := hx.actAll as
    exact ⟨hpipeline, houtput⟩

end StreamedPipeline

/-! ## A target that is too low -/

/-- Each segment is one key frame that lasts so long. -/
structure FrameDemuxer where
  length : ExactTime

instance : Demuxer FrameDemuxer ExactTime where
  demux d offset data :=
    (.ok [StreamedPipeline.keyFrame offset d.length data], d)
  reset d := d

namespace StreamedPipeline

/-- The segment of the frame at `t`, with room for ten seconds. -/
def segmentAt (t : ExactTime) : Append ℕ ExactTime := ⟨[], t, ⟨0, .finite 10⟩, 0⟩

def oneHour : List (TimeRange ExactTime) := [⟨0, .finite 3600⟩]

/-- A worker with a segment to process, about to take the lock after it has measured an hour. -/
def sated : DemuxWorker FrameDemuxer ℕ ExactTime where
  demuxer := some ⟨1⟩
  queue := [segmentAt 0]
  needKeyFrame := false
  signalled := true
  shutdown := false
  phase := .locking (TimeRange.bufferedAhead oneHour 1)

theorem holdsBack_playable_iff_sated :
    PipelineSettings.default (T := ExactTime).IsValid ∧ sated.HoldsBack .default oneHour 1 ∧
      TimeRange.isBufferedUntil oneHour 1 (1 + PipelineSettings.default.needForPlay) none
        PipelineSettings.default.endDelta = true := by
  have hvalid : PipelineSettings.default (T := ExactTime).IsValid := by
    unfold PipelineSettings.IsValid
    decide +kernel
  have hw : sated.HoldsBack .default oneHour 1 :=
    DemuxWorker.holdsBack_iff.mpr ⟨rfl, by decide, rfl, by decide +kernel⟩
  obtain ⟨hiff, -, -⟩ := holdsBack_playable_iff hvalid (⟨1⟩ : FrameDemuxer) (segmentAt 0)
  exact ⟨hvalid, hw, hiff.mpr (by decide +kernel) sated oneHour 1 none hw⟩

/-- Half a second is kept ahead, but it takes a second to play. -/
def lowTarget : PipelineSettings ExactTime :=
  { PipelineSettings.default with demuxBufferAhead := 0.5, needForPlay := 1 }

/-- Two segments of frames of 0.8 seconds are appended, and playback is to begin. -/
def opening : StreamedPipeline FrameDemuxer ℕ ExactTime where
  demuxing :=
    (DemuxSystem.mk .new (.empty .dts)).actAll lowTarget
      [.setDemuxer (some ⟨0.8⟩), .append (segmentAt 0), .append (segmentAt 0.8)]
  playback :=
    (MonitoredPipeline.new 0).actAll lowTarget [.call .doneInitializing, .call .play, .start]

/-- The worker has processed one segment and measured again. -/
def halfFed : StreamedPipeline FrameDemuxer ℕ ExactTime :=
  opening.actAll lowTarget (List.replicate 9 .demux)

theorem isStarved_halfFed : halfFed.IsStarved lowTarget where
  stalled := by decide +kernel
  queued := by decide +kernel
  serving := by decide +kernel
  full := by decide +kernel
  short := by decide +kernel
  beforeEnd := by
    have hnone : halfFed.playback.pipeline.duration = none := by decide +kernel
    simp [hnone]
  measures := by
    have hphase : halfFed.demuxing.worker.phase =
        .locking (TimeRange.bufferedAhead halfFed.ranges halfFed.time) := by decide +kernel
    rw [hphase]
    rfl
  watches := trivial

/-- Valid settings with which playback never starts, although there are two segments to play. -/
theorem halfFed_waits_for_ever :
    lowTarget.IsValid ∧
      halfFed.demuxing.worker.HoldsBack lowTarget [⟨0, 0.8⟩] 0 ∧
      TimeRange.isBufferedUntil [⟨0, 0.8⟩] 0 (0 + lowTarget.needForPlay) none
        lowTarget.endDelta = false ∧
      ∀ as, (halfFed.actAll lowTarget as).playback.pipeline.status = .stalled ∧
        (halfFed.actAll lowTarget as).ranges = [⟨0, 0.8⟩] := by
  refine ⟨?_, ?_, by decide +kernel, fun as => ?_⟩
  · unfold PipelineSettings.IsValid
    decide +kernel
  · refine DemuxWorker.holdsBack_iff.mpr ⟨?_, ?_, ?_, ?_⟩ <;> decide +kernel
  · obtain ⟨hlast, -, houtput, -⟩ := isStarved_halfFed.actAll as
    refine ⟨hlast.stalled, ?_⟩
    rw [ranges, houtput]
    decide +kernel

end StreamedPipeline

end MediaPipeline
