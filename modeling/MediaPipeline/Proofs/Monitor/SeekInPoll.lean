import Mathlib.Data.List.Basic
import MediaPipeline.Proofs.Monitor.Polls
import MediaPipeline.Proofs.Playback.Bounds

/-!
# Seeks during a poll

A poll reads the time and decides on its call later, and other threads may seek in between. To let
playback go on or to stall it leaves the media time where it is by then; to end playback puts it at
the duration, so that a seek is undone by a poll that has read the end before.
-/

namespace MediaPipeline

/-! ## A pipeline and its monitor -/

/-- A pipeline, the monitor that watches it, and the wall clock. -/
structure MonitoredPipeline (T : Type) where
  monitor : Monitor T
  pipeline : Pipeline T
  now : Nat

inductive MonitoredAction (T : Type) where
  /-- The monitor makes a step; these are the ranges at that moment. -/
  | poll (buffered decoded : List (TimeRange T))
  | wake
  | start
  | requestStop
  | requestShutdown
  | advance (nanos : Nat)
  /-- Another thread makes a call. -/
  | call (c : PipelineCall T)

namespace MonitoredPipeline

section Runs

variable {T : Type} [MediaTime T]

def new (now : Nat) : MonitoredPipeline T := ⟨.new, .new now, now⟩

def time (x : MonitoredPipeline T) : T := x.pipeline.currentTime x.now

def view (x : MonitoredPipeline T) (buffered decoded : List (TimeRange T)) : MonitorView T :=
  ⟨buffered, decoded, x.time, x.pipeline.duration, x.pipeline.status⟩

/-- The pipeline makes the call that an event of the monitor stands for. -/
def follow (now : Nat) (p : Pipeline T) : MonitorEvent T → Pipeline T
  | .call c => (p.call now c).1
  | .ready _ => p

def act (settings : PipelineSettings T) (x : MonitoredPipeline T) :
    MonitoredAction T → MonitoredPipeline T
  | .poll buffered decoded =>
    let (monitor, events) := x.monitor.step settings (x.view buffered decoded)
    { x with monitor, pipeline := events.foldl (follow x.now) x.pipeline }
  | .wake => { x with monitor := x.monitor.wake }
  | .start => { x with monitor := x.monitor.start }
  | .requestStop => { x with monitor := x.monitor.requestStop }
  | .requestShutdown => { x with monitor := x.monitor.requestShutdown }
  | .advance n => { x with now := x.now + n }
  | .call c => { x with pipeline := (x.pipeline.call x.now c).1 }

def actAll (settings : PipelineSettings T) (x : MonitoredPipeline T)
    (as : List (MonitoredAction T)) : MonitoredPipeline T :=
  as.foldl (act settings) x

/-- The monitor goes on by itself; these are the ranges at each of its steps. -/
def pollAll (settings : PipelineSettings T) (x : MonitoredPipeline T)
    (ranges : List (List (TimeRange T) × List (TimeRange T))) : MonitoredPipeline T :=
  x.actAll settings (ranges.map fun r => .poll r.1 r.2)

end Runs

end MonitoredPipeline

/-! ## Between the time that is read and the call -/

namespace MonitorPhase

variable {T : Type}

/-- How many steps are left up to the call of a poll that has read the time. -/
def stepsToCall : MonitorPhase T → Nat
  | readingDuration _ _ _ => 3
  | deciding _ => 2
  | calling _ _ => 1
  | _ => 0

end MonitorPhase

namespace MonitoredPipeline

/-- The poll under way has read a time at the end of the media. -/
def HasReadEnd {T : Type} [MediaTime T] (x : MonitoredPipeline T) : Prop :=
  match x.monitor.phase with
  | .readingDuration _ _ time => ∃ d ∈ x.pipeline.duration, d ≤ time
  | .deciding r | .calling r _ => r.atEnd = true
  | _ => False

end MonitoredPipeline

namespace Pipeline

/-- The call is a seek that is accepted, and `target` is where it goes. -/
def SeeksTo {T : Type} [MediaTime T] (p : Pipeline T) (c : PipelineCall T) (target : T) : Prop :=
  match c with
  | .seek t => p.AcceptsSeeks ∧ target = p.clampToDuration (MediaTime.later t 0)
  | .play => p.status = .ended ∧ target = 0
  | _ => False

open ExactTime

variable {p : Pipeline ExactTime} {c : PipelineCall ExactTime} {target d : ExactTime} {now : ℕ}

/-- A seek to `target` is under way, in front of the end. -/
structure IsSeekingTo (p : Pipeline ExactTime) (target d : ExactTime) : Prop where
  seeking : p.status.isSeeking = true
  media : p.clock.media = target
  duration : p.clock.duration = some d
  below : target < d

theorem SeeksTo.isSeekingTo (hseek : p.SeeksTo c target) (hduration : p.duration = some d)
    (hbelow : target < d) : (p.call now c).1.IsSeekingTo target d := by
  cases c with
  | seek t =>
      obtain ⟨haccept, rfl⟩ := hseek
      obtain ⟨hclock, hseeking⟩ := seek_clock haccept now t
      exact ⟨hseeking, congrArg MediaClock.media hclock,
        (congrArg MediaClock.duration hclock).trans hduration, hbelow⟩
  | play =>
      obtain ⟨hended, rfl⟩ := hseek
      have hplay : (p.call now .play).1 = ((p.moveTo now 0).enterSeeking .seekingPlay).1 := by
        simp only [call, play, hended]
      refine ⟨?_, ?_, ?_, hbelow⟩ <;> rw [hplay]
      · rw [enterSeeking_status]
        rfl
      · rw [enterSeeking_clock]
        rfl
      · rw [enterSeeking_clock]
        exact hduration
  | _ => exact hseek.elim

namespace IsSeekingTo

theorem not_playing (hp : p.IsSeekingTo target d) : p.status ≠ .playing := by
  intro hplaying
  simpa [hplaying, PlaybackState.isSeeking] using hp.seeking

theorem not_ended (hp : p.IsSeekingTo target d) : p.status ≠ .ended := by
  intro hended
  simpa [hended, PlaybackState.isSeeking] using hp.seeking

theorem currentTime_eq (hp : p.IsSeekingTo target d) (now : ℕ) : p.currentTime now = target :=
  (currentTime_of_isSeeking hp.seeking now).trans hp.media

/-- With data there the media time goes on from the target. -/
theorem canPlay (hp : p.IsSeekingTo target d) :
    (p.canPlay now).1.currentTime now = target ∧ (p.canPlay now).1.status ≠ .ended := by
  have hsync : (p.sync now).clock = p.clock.anchor now target := by
    rw [sync_clock, hp.currentTime_eq]
  have hcan : ∃ new, new ≠ .ended ∧ (p.canPlay now).1 = ((p.sync now).enter new).1 := by
    have hseeking := hp.seeking
    unfold Pipeline.canPlay
    cases hstatus : p.status with
    | seekingPlay => exact ⟨.playing, by decide, rfl⟩
    | seekingPause => exact ⟨.paused, by decide, rfl⟩
    | _ => simp [hstatus, PlaybackState.isSeeking] at hseeking
  obtain ⟨new, hnew, hcan⟩ := hcan
  rw [hcan]
  refine ⟨?_, by rwa [enter_status]⟩
  refine currentTime_of_clock ((enter_clock _ _).trans hsync) fun d' hd' => ?_
  obtain rfl : d = d' := Option.some.inj (hp.duration.symm.trans hd')
  exact MediaTime.le_of_lt hp.below

theorem bufferingStarted (hp : p.IsSeekingTo target d) : (p.bufferingStarted now).1 = p := by
  rw [Pipeline.bufferingStarted, if_neg hp.not_playing]

theorem reachedEnd (hp : p.IsSeekingTo target d) : (p.reachedEnd now).1.status = .ended := by
  have hduration : p.duration = some d := hp.duration
  have hseeking := hp.seeking
  unfold Pipeline.reachedEnd
  cases hstatus : p.status <;> simp_all [PlaybackState.isSeeking]

end IsSeekingTo

end Pipeline

/-! ## The call of a poll -/

namespace PollReading

variable {T : Type} [MediaTime T] {settings : PipelineSettings T} {r : PollReading T}
  {state : PlaybackState} {call : PipelineCall T}

theorem verdict_eq_some (hcall : r.verdict settings state = some call) :
    r.atEnd = true ∧ call = .reachedEnd ∨
      r.atEnd = false ∧ (call = .canPlay ∨ call = .bufferingStarted) := by
  unfold verdict at hcall
  split_ifs at hcall with _ hend _ <;> cases hcall
  · exact .inl ⟨hend, rfl⟩
  · exact .inr ⟨by simpa using hend, .inl rfl⟩
  · exact .inr ⟨by simpa using hend, .inr rfl⟩

theorem exists_verdict (settings : PipelineSettings T) (r : PollReading T)
    (hstate : state ≠ .initializing) : ∃ call, r.verdict settings state = some call := by
  unfold verdict
  split_ifs with hinit
  · exact absurd hinit hstate
  all_goals exact ⟨_, rfl⟩

end PollReading

namespace MonitoredPipeline

variable {settings : PipelineSettings ExactTime} {x : MonitoredPipeline ExactTime}
  {target d : ExactTime}

/-- The monitor goes on as in a run of its own. -/
theorem exists_monitor_actAll {T : Type} [MediaTime T] (settings : PipelineSettings T)
    (x : MonitoredPipeline T) (as : List (MonitoredAction T)) :
    ∃ bs, (x.actAll settings as).monitor = x.monitor.actAll settings bs := by
  induction as generalizing x with
  | nil => exact ⟨[], rfl⟩
  | cons a as ih =>
      obtain ⟨bs, hbs⟩ := ih (x.act settings a)
      cases a with
      | poll buffered decoded => exact ⟨.step (x.view buffered decoded) :: bs, hbs⟩
      | wake => exact ⟨.wake :: bs, hbs⟩
      | start => exact ⟨.start :: bs, hbs⟩
      | requestStop => exact ⟨.requestStop :: bs, hbs⟩
      | requestShutdown => exact ⟨.requestShutdown :: bs, hbs⟩
      | advance n => exact ⟨bs, hbs⟩
      | call c => exact ⟨bs, hbs⟩

/-- The call that is about to be made is the verdict of the poll. -/
theorem verdict_of_calling {start : ℕ} {past : List (MonitoredAction ExactTime)}
    (hx : (new start).actAll settings past = x) {r : PollReading ExactTime}
    {call : PipelineCall ExactTime} (hphase : x.monitor.phase = .calling r call) :
    ∃ state, r.verdict settings state = some call := by
  obtain ⟨bs, hbs⟩ := exists_monitor_actAll settings (new start) past
  rw [hx] at hbs
  have hpolling := Monitor.isPolling_actAll settings bs
  rw [Monitor.IsPolling, show Monitor.actAll settings .new bs = x.monitor from hbs.symm,
    hphase] at hpolling
  rcases hpolling with hidle | ⟨seen, -, hpoll⟩
  · exact hidle.elim
  · cases hpoll with
    | call hcall => exact ⟨_, hcall⟩

/-! ## The rest of a poll, after a seek -/

theorem act_poll_calling {r : PollReading ExactTime} {call : PipelineCall ExactTime}
    (hphase : x.monitor.phase = .calling r call) (hp : x.pipeline.IsSeekingTo target d)
    {state : PlaybackState} (hcall : r.verdict settings state = some call)
    (buffered decoded : List (TimeRange ExactTime)) :
    let y := x.act settings (.poll buffered decoded)
    y.monitor.phase = .classifying r ∧
      (y.time = target ∧ y.pipeline.status ≠ .ended ↔ r.atEnd = false) := by
  have hstep : x.act settings (.poll buffered decoded) =
      ⟨{ x.monitor with phase := .classifying r }, (x.pipeline.call x.now call).1, x.now⟩ := by
    simp [act, Monitor.step, hphase, follow]
  rw [hstep]
  refine ⟨rfl, ?_⟩
  rcases PollReading.verdict_eq_some hcall with ⟨hend, rfl⟩ | ⟨hend, rfl | rfl⟩
  · refine iff_of_false ?_ (by simp [hend])
    rintro ⟨-, hended⟩
    exact hended hp.reachedEnd
  · exact iff_of_true hp.canPlay hend
  · refine iff_of_true ?_ hend
    simp only [time, Pipeline.call, hp.bufferingStarted]
    exact ⟨hp.currentTime_eq x.now, hp.not_ended⟩

theorem act_poll_deciding (settings : PipelineSettings ExactTime) {r : PollReading ExactTime}
    (hphase : x.monitor.phase = .deciding r) (hp : x.pipeline.IsSeekingTo target d)
    (buffered decoded : List (TimeRange ExactTime)) :
    ∃ call, r.verdict settings x.pipeline.status = some call ∧
      x.act settings (.poll buffered decoded) =
        { x with monitor := { x.monitor with phase := .calling r call } } := by
  have hstate : x.pipeline.status ≠ .initializing := by
    intro hinit
    simpa [hinit, PlaybackState.isSeeking] using hp.seeking
  obtain ⟨call, hcall⟩ := PollReading.exists_verdict settings r hstate
  exact ⟨call, hcall, by simp [act, Monitor.step, hphase, view, hcall]⟩

theorem act_poll_readingDuration {b e : List (TimeRange ExactTime)} {t : ExactTime}
    (hphase : x.monitor.phase = .readingDuration b e t)
    (buffered decoded : List (TimeRange ExactTime)) :
    x.act settings (.poll buffered decoded) =
      { x with
        monitor := { x.monitor with phase := .deciding ⟨b, e, t, x.pipeline.duration⟩ } } := by
  simp [act, Monitor.step, hphase, view]

variable {ranges : List (List (TimeRange ExactTime) × List (TimeRange ExactTime))}

theorem pollAll_of_calling {r : PollReading ExactTime} {call : PipelineCall ExactTime}
    (hphase : x.monitor.phase = .calling r call) (hp : x.pipeline.IsSeekingTo target d)
    {state : PlaybackState} (hcall : r.verdict settings state = some call)
    (hranges : ranges.length = 1) :
    let y := x.pollAll settings ranges
    y.monitor.phase = .classifying r ∧
      (y.time = target ∧ y.pipeline.status ≠ .ended ↔ r.atEnd = false) := by
  obtain ⟨⟨buffered, decoded⟩, rfl⟩ := List.length_eq_one_iff.mp hranges
  exact act_poll_calling hphase hp hcall buffered decoded

theorem pollAll_of_deciding {r : PollReading ExactTime} (hphase : x.monitor.phase = .deciding r)
    (hp : x.pipeline.IsSeekingTo target d) (hranges : ranges.length = 2) :
    let y := x.pollAll settings ranges
    y.monitor.phase = .classifying r ∧
      (y.time = target ∧ y.pipeline.status ≠ .ended ↔ r.atEnd = false) := by
  obtain ⟨⟨buffered, decoded⟩, last, rfl⟩ := List.length_eq_two.mp hranges
  obtain ⟨call, hcall, hact⟩ := act_poll_deciding settings hphase hp buffered decoded
  have hrest : x.pollAll settings [(buffered, decoded), last] =
      (x.act settings (.poll buffered decoded)).pollAll settings [last] := rfl
  rw [hrest, hact]
  exact pollAll_of_calling rfl hp hcall rfl

theorem pollAll_of_readingDuration {b e : List (TimeRange ExactTime)} {t : ExactTime}
    (hphase : x.monitor.phase = .readingDuration b e t)
    (hp : x.pipeline.IsSeekingTo target d) (hranges : ranges.length = 3) :
    let y := x.pollAll settings ranges
    y.monitor.phase = .classifying ⟨b, e, t, x.pipeline.duration⟩ ∧
      (y.time = target ∧ y.pipeline.status ≠ .ended ↔
        (PollReading.mk b e t x.pipeline.duration).atEnd = false) := by
  obtain ⟨⟨buffered, decoded⟩, second, last, rfl⟩ := List.length_eq_three.mp hranges
  have hrest : x.pollAll settings [(buffered, decoded), second, last] =
      (x.act settings (.poll buffered decoded)).pollAll settings [second, last] := rfl
  rw [hrest, act_poll_readingDuration hphase]
  exact pollAll_of_deciding rfl hp rfl

/-- From any state that is ever reached, between the step of a poll that reads the time and its
call, let a seek to a time before the end be accepted. When the poll has gone on and made its call,
the media time is still where the seek went and playback has not ended, exactly if the time that
the poll had read was not at the end. -/
theorem seek_kept_iff {start : ℕ} {past : List (MonitoredAction ExactTime)}
    {c : PipelineCall ExactTime} (hx : (new start).actAll settings past = x)
    (hread : x.monitor.phase.stepsToCall ≠ 0) (hseek : x.pipeline.SeeksTo c target)
    (hduration : x.pipeline.duration = some d) (hbelow : target < d)
    (hranges : ranges.length = x.monitor.phase.stepsToCall) :
    let y := (x.act settings (.call c)).pollAll settings ranges
    (∃ r, y.monitor.phase = .classifying r) ∧
      (y.time = target ∧ y.pipeline.status ≠ .ended ↔ ¬ x.HasReadEnd) := by
  set sought := x.act settings (.call c)
  have hp : sought.pipeline.IsSeekingTo target d := hseek.isSeekingTo hduration hbelow
  unfold HasReadEnd
  cases hphase : x.monitor.phase with
  | calling r call =>
      obtain ⟨state, hcall⟩ := verdict_of_calling hx hphase
      rw [hphase] at hranges
      obtain ⟨hdone, hiff⟩ := pollAll_of_calling (x := sought) hphase hp hcall hranges
      exact ⟨⟨r, hdone⟩, by simpa using hiff⟩
  | deciding r =>
      rw [hphase] at hranges
      obtain ⟨hdone, hiff⟩ := pollAll_of_deciding (x := sought) hphase hp hranges
      exact ⟨⟨r, hdone⟩, by simpa using hiff⟩
  | readingDuration b e t =>
      rw [hphase] at hranges
      obtain ⟨hdone, hiff⟩ := pollAll_of_readingDuration (x := sought) hphase hp hranges
      refine ⟨⟨_, hdone⟩, hiff.trans ?_⟩
      have hsame : sought.pipeline.duration = some d := hp.duration
      simp only [hsame, hduration, PollReading.atEnd]
      simp
  | _ => simp [hphase, MonitorPhase.stepsToCall] at hread

/-- Ten seconds of media, a seek to `t`, and a poll up to where it has read the time. -/
def readAt (t : ExactTime) : MonitoredPipeline ExactTime :=
  (new 0).actAll .default ([.call (.setDuration (some (.finite 10))), .call .doneInitializing,
    .call (.seek t), .start] ++ List.replicate 4 (.poll [] []))

theorem seek_kept_iff_readAt :
    let y := ((readAt (.finite 5)).act .default (.call (.seek (.finite 3)))).pollAll .default
      (List.replicate 3 ([], []))
    (readAt (.finite 5)).monitor.phase = .readingDuration [] [] (.finite 5) ∧
      (∃ r, y.monitor.phase = .classifying r) ∧
        y.time = .finite 3 ∧ y.pipeline.status ≠ .ended := by
  intro y
  have hphase : (readAt (.finite 5)).monitor.phase = .readingDuration [] [] (.finite 5) := by
    decide +kernel
  have hseek : (readAt (.finite 5)).pipeline.SeeksTo (.seek (.finite 3)) (.finite 3) := by
    unfold Pipeline.SeeksTo Pipeline.AcceptsSeeks
    decide +kernel
  have hduration : (readAt (.finite 5)).pipeline.duration = some (.finite 10) := by
    decide +kernel
  have hranges : (List.replicate 3 (([], []) :
      List (TimeRange ExactTime) × List (TimeRange ExactTime))).length =
        (readAt (.finite 5)).monitor.phase.stepsToCall := by
    rw [hphase]
    rfl
  obtain ⟨hdone, hiff⟩ := seek_kept_iff
    (show (new 0).actAll .default _ = readAt (.finite 5) from rfl)
    (by rw [hphase]; decide) hseek hduration (by decide +kernel) hranges
  refine ⟨hphase, hdone, hiff.mpr ?_⟩
  rw [HasReadEnd, hphase]
  decide +kernel

/-- The poll has read the end, the seek is accepted, and then the poll ends playback. -/
theorem seek_undone :
    (readAt (.finite 10)).monitor.phase = .readingDuration [] [] (.finite 10) ∧
      (readAt (.finite 10)).pipeline.SeeksTo (.seek (.finite 3)) (.finite 3) ∧
      (readAt (.finite 10)).pipeline.duration = some (.finite 10) ∧
      let y := ((readAt (.finite 10)).act .default (.call (.seek (.finite 3)))).pollAll .default
        (List.replicate 3 ([], []))
      y.time = .finite 10 ∧ y.pipeline.status = .ended := by
  refine ⟨by decide +kernel, ?_, by decide +kernel, by decide +kernel⟩
  unfold Pipeline.SeeksTo Pipeline.AcceptsSeeks
  decide +kernel

end MonitoredPipeline

end MediaPipeline
