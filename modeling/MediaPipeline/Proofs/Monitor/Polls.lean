import Mathlib.Data.List.Induction
import MediaPipeline.Proofs.Time.Exact
import MediaPipeline.Worker.Monitor

/-!
# Polls of the monitor

The monitor takes its steps while everything around it changes, so what it sees at one step says
nothing about what it sees at the next. What it calls and reports stands on the ranges, the time and
the duration that it has read in the same poll.

A stretch of media is backed by a span that holds its start and reaches its end, or the end of the
media. Near the end of the media the test asks for less: a span that begins in time will do, even if
it is over before the stretch begins. There, and nowhere else, a call or a report may be backed by
nothing.
-/

namespace MediaPipeline

/-! ## Backing by data -/

namespace TimeRange

section

variable {T : Type} [MediaTime T]

/-- One span holds `start`, or begins no later than the gap tolerance after it, and reaches `stop`
unless the media is known to end within `delta` of it. -/
def IsBacked (ranges : List (TimeRange T)) (start stop : T) (duration : Option T) (delta : T) :
    Prop :=
  ∃ r ∈ ranges, r.start ≤ start + maxGap ∧ start ≤ r.stop ∧
    (stop ≤ r.stop ∨ ∃ d ∈ duration, d ≤ stop + delta)

/-- The media is known to end within `delta` of `stop`, and every span that begins in time is over
before `start`. -/
def IsOverrun (ranges : List (TimeRange T)) (start stop : T) (duration : Option T) (delta : T) :
    Prop :=
  (∃ d ∈ duration, d ≤ stop + delta) ∧ ∀ r ∈ ranges, r.start ≤ start + maxGap → r.stop < start

theorem isBufferedUntil_iff {ranges : List (TimeRange T)} {start stop delta : T}
    {duration : Option T} :
    isBufferedUntil ranges start stop duration delta = true ↔
      ∃ r ∈ ranges, r.start ≤ start + maxGap ∧
        (stop ≤ r.stop ∨ ∃ d ∈ duration, d ≤ stop + delta) := by
  have hend : nearEnd duration stop delta = true ↔ ∃ d ∈ duration, d ≤ stop + delta := by
    cases duration <;> simp [nearEnd]
  simp [isBufferedUntil, hend]

end

variable {ranges : List (TimeRange ExactTime)} {start stop delta : ExactTime}
  {duration : Option ExactTime}

theorem IsBacked.not_isOverrun (hbacked : IsBacked ranges start stop duration delta) :
    ¬ IsOverrun ranges start stop duration delta := by
  obtain ⟨r, hr, hbegins, hholds, -⟩ := hbacked
  rintro ⟨-, hover⟩
  exact ExactTime.lt_iff_not_le.mp (hover r hr hbegins) hholds

theorem isBacked_or_isOverrun (hle : start ≤ stop)
    (hbuffered : isBufferedUntil ranges start stop duration delta = true) :
    IsBacked ranges start stop duration delta ∨ IsOverrun ranges start stop duration delta := by
  obtain ⟨r, hr, hbegins, hreaches | hend⟩ := isBufferedUntil_iff.mp hbuffered
  · exact Or.inl ⟨r, hr, hbegins, LawfulMediaTime.le_trans hle hreaches, Or.inl hreaches⟩
  · by_cases hholds : ∃ r ∈ ranges, r.start ≤ start + maxGap ∧ start ≤ r.stop
    · obtain ⟨r, hr, hbegins, hholds⟩ := hholds
      exact Or.inl ⟨r, hr, hbegins, hholds, Or.inr hend⟩
    · refine Or.inr ⟨hend, ?_⟩
      intro r hr hbegins
      rw [ExactTime.lt_iff_not_le]
      exact fun hle => hholds ⟨r, hr, hbegins, hle⟩

/-- A stretch that counts as buffered is backed unless it is overrun. -/
theorem isBacked_iff_not_isOverrun (hle : start ≤ stop)
    (hbuffered : isBufferedUntil ranges start stop duration delta = true) :
    IsBacked ranges start stop duration delta ↔ ¬ IsOverrun ranges start stop duration delta :=
  ⟨IsBacked.not_isOverrun, (isBacked_or_isOverrun hle hbuffered).resolve_right⟩

theorem isBufferedUntil_iff_isBacked_or_isOverrun (hle : start ≤ stop) :
    isBufferedUntil ranges start stop duration delta = true ↔
      IsBacked ranges start stop duration delta ∨
        IsOverrun ranges start stop duration delta ∧ ∃ r ∈ ranges, r.start ≤ start + maxGap := by
  constructor
  · intro hbuffered
    obtain ⟨r, hr, hbegins, -⟩ := isBufferedUntil_iff.mp hbuffered
    exact (isBacked_or_isOverrun hle hbuffered).imp_right fun hover => ⟨hover, r, hr, hbegins⟩
  · rw [isBufferedUntil_iff]
    rintro (⟨r, hr, hbegins, -, hreaches⟩ | ⟨⟨hend, -⟩, r, hr, hbegins⟩)
    · exact ⟨r, hr, hbegins, hreaches⟩
    · exact ⟨r, hr, hbegins, Or.inr hend⟩

end TimeRange

/-! ## Valid settings -/

namespace PipelineSettings

variable {T : Type} [MediaTime T] {settings : PipelineSettings T}

def amounts (s : PipelineSettings T) : List T :=
  [s.decodeBufferAhead, s.demuxBufferAhead, s.needForPlay, s.needForEnough, s.audioBufferTarget]

theorem IsValid.amounts (hvalid : settings.IsValid) :
    ∀ x ∈ settings.amounts, MediaTime.isFinite x = true ∧ 0 < x := by
  unfold IsValid fault? at hvalid
  dsimp only at hvalid
  split at hvalid
  · cases hvalid
  · next hnone =>
    have hpositive := List.find?_eq_none.mp hnone
    simpa [PipelineSettings.amounts] using hpositive

end PipelineSettings

/-! ## Events -/

namespace MonitorEvent

section

variable {T : Type} [MediaTime T]

/-- The stretches of media that an event of the monitor stands for, each from the playhead up to the
time that is given with the spans that it is looked for in. -/
def stretches (settings : PipelineSettings T) (r : PollReading T) :
    MonitorEvent T → List (List (TimeRange T) × T)
  | .call .canPlay => [(r.buffered, r.time + settings.needForPlay), (r.decoded, r.time)]
  | .ready .currentData => [(r.buffered, r.time)]
  | .ready .futureData => [(r.buffered, r.time + settings.needForPlay)]
  | .ready .enoughData => [(r.buffered, r.time + settings.needForEnough)]
  | _ => []

/-- The data that an event stands for is there. -/
def IsBacked (settings : PipelineSettings T) (r : PollReading T) (e : MonitorEvent T) : Prop :=
  ∀ s ∈ e.stretches settings r,
    TimeRange.IsBacked s.1 r.time s.2 r.duration settings.endDelta

/-- Near the end of the media, some of the data that an event stands for lies in the past. -/
def IsOverrun (settings : PipelineSettings T) (r : PollReading T) (e : MonitorEvent T) : Prop :=
  ∃ s ∈ e.stretches settings r,
    TimeRange.IsOverrun s.1 r.time s.2 r.duration settings.endDelta

/-- The stretches that an event stands for count as buffered. -/
def IsTested (settings : PipelineSettings T) (r : PollReading T) (e : MonitorEvent T) : Prop :=
  ∀ s ∈ e.stretches settings r,
    TimeRange.isBufferedUntil s.1 r.time s.2 r.duration settings.endDelta = true

variable {settings : PipelineSettings T} {r : PollReading T} {state : PlaybackState}

theorem isTested_verdict {call : PipelineCall T} (hcall : r.verdict settings state = some call) :
    (MonitorEvent.call call).IsTested settings r := by
  unfold PollReading.verdict at hcall
  split_ifs at hcall with _ _ hdata <;> cases hcall
  · exact nofun
  · rw [Bool.and_eq_true] at hdata
    exact List.forall_mem_cons.mpr ⟨hdata.1, List.forall_mem_singleton.mpr hdata.2⟩
  · exact nofun

theorem isTested_ready (settings : PipelineSettings T) (r : PollReading T) (state : PlaybackState) :
    (MonitorEvent.ready (r.ready settings state)).IsTested settings r := by
  unfold PollReading.ready
  split_ifs with _ henough hplay hcurrent
  · exact nofun
  · exact List.forall_mem_singleton.mpr henough
  · exact List.forall_mem_singleton.mpr hplay
  · exact List.forall_mem_singleton.mpr hcurrent
  · exact nofun

end

variable {settings : PipelineSettings ExactTime} {r : PollReading ExactTime}
  {e : MonitorEvent ExactTime}

theorem time_le_of_mem_stretches (hvalid : settings.IsValid)
    {s : List (TimeRange ExactTime) × ExactTime} (hs : s ∈ e.stretches settings r) :
    r.time ≤ s.2 := by
  have hamounts := hvalid.amounts
  simp only [PipelineSettings.amounts, List.forall_mem_cons] at hamounts
  obtain ⟨-, -, ⟨-, hplay⟩, ⟨-, henough⟩, -⟩ := hamounts
  have hahead {need : ExactTime} (hneed : 0 < need) : r.time ≤ r.time + need :=
    ExactTime.le_add_of_nonneg (MediaTime.le_of_lt hneed) r.time
  unfold stretches at hs
  split at hs <;> simp only [List.mem_cons, List.not_mem_nil, or_false] at hs
  · rcases hs with rfl | rfl
    · exact hahead hplay
    · exact ExactTime.refl r.time
  · exact hs ▸ ExactTime.refl r.time
  · exact hs ▸ hahead hplay
  · exact hs ▸ hahead henough

theorem IsTested.isBacked_iff (htested : e.IsTested settings r) (hvalid : settings.IsValid) :
    e.IsBacked settings r ↔ ¬ e.IsOverrun settings r := by
  have hall (s) (hs : s ∈ e.stretches settings r) :=
    TimeRange.isBacked_iff_not_isOverrun (time_le_of_mem_stretches hvalid hs) (htested s hs)
  simp only [IsBacked, IsOverrun, not_exists, not_and]
  exact forall₂_congr hall

end MonitorEvent

/-! ## Runs -/

/-- What can happen to a monitor. -/
inductive MonitorAction (T : Type) where
  /-- The loop makes a step; this is what it sees. -/
  | step (view : MonitorView T)
  | wake
  | start
  | requestStop
  | requestShutdown

namespace MonitorAction

variable {T : Type}

def view? : MonitorAction T → Option (MonitorView T)
  | step v => some v
  | wake | start | requestStop | requestShutdown => none

end MonitorAction

/-- Waiting for the next poll, or for nothing. -/
def MonitorPhase.IsIdle {T : Type} : MonitorPhase T → Prop
  | checking | waiting | sleeping _ | exited => True
  | _ => False

def PollReading.ofViews {T : Type} (v₁ v₂ v₃ v₄ : MonitorView T) : PollReading T :=
  ⟨v₁.buffered, v₂.decoded, v₃.time, v₄.duration⟩

open PollReading (ofViews)

namespace Monitor

variable {T : Type} [MediaTime T] {settings : PipelineSettings T} {m : Monitor T}
  {v : MonitorView T} {seen : List (MonitorView T)} {as : List (MonitorAction T)}

def act (settings : PipelineSettings T) (m : Monitor T) : MonitorAction T → Monitor T
  | .step v => (m.step settings v).1
  | .wake => m.wake
  | .start => m.start
  | .requestStop => m.requestStop
  | .requestShutdown => m.requestShutdown

def actAll (settings : PipelineSettings T) (m : Monitor T) (as : List (MonitorAction T)) :
    Monitor T :=
  as.foldl (act settings) m

/-- Where a poll stands after what it has seen. -/
inductive Polling (settings : PipelineSettings T) :
    List (MonitorView T) → MonitorPhase T → Prop
  | start : Polling settings [] .readingBuffered
  | buffered (v₁ : MonitorView T) : Polling settings [v₁] (.readingDecoded v₁.buffered)
  | decoded (v₁ v₂ : MonitorView T) :
    Polling settings [v₁, v₂] (.readingTime v₁.buffered v₂.decoded)
  | time (v₁ v₂ v₃ : MonitorView T) :
    Polling settings [v₁, v₂, v₃] (.readingDuration v₁.buffered v₂.decoded v₃.time)
  | read (v₁ v₂ v₃ v₄ : MonitorView T) :
    Polling settings [v₁, v₂, v₃, v₄] (.deciding (ofViews v₁ v₂ v₃ v₄))
  | call {v₁ v₂ v₃ v₄ v : MonitorView T} {call : PipelineCall T}
      (hcall : (ofViews v₁ v₂ v₃ v₄).verdict settings v.state = some call) :
    Polling settings [v₁, v₂, v₃, v₄, v] (.calling (ofViews v₁ v₂ v₃ v₄) call)
  | classify (v₁ v₂ v₃ v₄ : MonitorView T) {later : List (MonitorView T)}
      (hlater : later.length ≤ 2) :
    Polling settings (v₁ :: v₂ :: v₃ :: v₄ :: later) (.classifying (ofViews v₁ v₂ v₃ v₄))

omit [MediaTime T] in
theorem check_phase (m : Monitor T) :
    m.check.phase.IsIdle ∨ m.check.phase = .readingBuffered := by
  unfold check
  split_ifs <;> simp [MonitorPhase.IsIdle]

/-- An idle loop stays idle or starts a poll. -/
theorem step_of_isIdle (hidle : m.phase.IsIdle) :
    (m.step settings v).1.phase.IsIdle ∨ (m.step settings v).1.phase = .readingBuffered := by
  unfold step
  split
  · exact check_phase m
  · exact check_phase m
  all_goals simp_all [MonitorPhase.IsIdle]

theorem events_of_isIdle (hidle : m.phase.IsIdle) : (m.step settings v).2 = [] := by
  unfold step
  split <;> simp_all [MonitorPhase.IsIdle]

/-- A poll sees what is there at each of its steps, and ends with the step that classifies. -/
theorem Polling.step (hpoll : Polling settings seen m.phase) :
    (m.step settings v).1.phase.IsIdle ∨
      Polling settings (seen ++ [v]) (m.step settings v).1.phase := by
  obtain ⟨running, shutdown, parked, ready, phase⟩ := m
  cases hpoll with
  | start => exact Or.inr (.buffered v)
  | buffered v₁ => exact Or.inr (.decoded v₁ v)
  | decoded v₁ v₂ => exact Or.inr (.time v₁ v₂ v)
  | time v₁ v₂ v₃ => exact Or.inr (.read v₁ v₂ v₃ v)
  | read v₁ v₂ v₃ v₄ =>
      -- A poll that makes no call goes on to classify at once.
      right
      simp only [Monitor.step]
      split
      · exact .call ‹_›
      · exact .classify v₁ v₂ v₃ v₄ (by simp)
  | @call v₁ v₂ v₃ v₄ v₅ _ hcall => exact Or.inr (.classify v₁ v₂ v₃ v₄ (by simp))
  | classify v₁ v₂ v₃ v₄ hlater =>
      left
      simp only [Monitor.step]
      split_ifs <;> exact trivial

theorem Polling.isTested (hpoll : Polling settings seen m.phase) {e : MonitorEvent T}
    (he : e ∈ (m.step settings v).2) :
    ∃ v₁ v₂ v₃ v₄ later, later.length ≤ 2 ∧ seen = v₁ :: v₂ :: v₃ :: v₄ :: later ∧
      e.IsTested settings (ofViews v₁ v₂ v₃ v₄) := by
  obtain ⟨running, shutdown, parked, ready, phase⟩ := m
  cases hpoll with
  | start | buffered | decoded | time => simp [Monitor.step] at he
  | read v₁ v₂ v₃ v₄ =>
      simp only [Monitor.step] at he
      split at he <;> simp at he
  | @call v₁ v₂ v₃ v₄ v₅ call hcall =>
      obtain rfl : e = .call call := by simpa [Monitor.step] using he
      exact ⟨v₁, v₂, v₃, v₄, [v₅], by simp, rfl, MonitorEvent.isTested_verdict hcall⟩
  | @classify v₁ v₂ v₃ v₄ later hlater =>
      have hready : e = .ready ((ofViews v₁ v₂ v₃ v₄).ready settings v.state) := by
        simp only [Monitor.step] at he
        split_ifs at he
        · simp at he
        · simpa using he
      rw [hready]
      exact ⟨v₁, v₂, v₃, v₄, later, hlater, rfl, MonitorEvent.isTested_ready settings _ _⟩

/-- The loop is idle, or the last views are those of the poll under way. -/
def IsPolling (settings : PipelineSettings T) (m : Monitor T) (views : List (MonitorView T)) :
    Prop :=
  m.phase.IsIdle ∨ ∃ seen, seen <:+ views ∧ Polling settings seen m.phase

theorem IsPolling.step {views : List (MonitorView T)} (hpolling : IsPolling settings m views) :
    IsPolling settings (m.step settings v).1 (views ++ [v]) := by
  rcases hpolling with hidle | ⟨seen, ⟨before, rfl⟩, hpoll⟩
  · apply (step_of_isIdle hidle).imp_right
    intro hstart
    exact ⟨[], List.nil_suffix, hstart ▸ Polling.start⟩
  · apply hpoll.step.imp_right
    intro hpoll
    exact ⟨seen ++ [v], ⟨before, (List.append_assoc before seen [v]).symm⟩, hpoll⟩

omit [MediaTime T] in
theorem wake_phase (m : Monitor T) : m.wake.phase.IsIdle ∨ m.wake.phase = m.phase := by
  unfold wake
  split
  · exact Or.inl trivial
  · exact Or.inr rfl

omit [MediaTime T] in
@[simp] theorem start_phase (m : Monitor T) : m.start.phase = m.phase := by
  unfold start
  split_ifs <;> rfl

theorem IsPolling.act {views : List (MonitorView T)} (hpolling : IsPolling settings m views)
    (a : MonitorAction T) :
    IsPolling settings (m.act settings a) (views ++ a.view?.toList) := by
  cases a with
  | step v => exact hpolling.step
  | wake =>
      rw [MonitorAction.view?, Option.toList_none, List.append_nil]
      rcases wake_phase m with hidle | hphase
      · exact Or.inl hidle
      · rw [IsPolling, Monitor.act, hphase]
        exact hpolling
  | start | requestStop | requestShutdown =>
      simpa [MonitorAction.view?, IsPolling, Monitor.act, requestStop, requestShutdown]
        using hpolling

theorem isPolling_actAll (settings : PipelineSettings T) (as : List (MonitorAction T)) :
    IsPolling settings (actAll settings new as) (as.filterMap MonitorAction.view?) := by
  induction as using List.reverseRecOn with
  | nil => exact Or.inl trivial
  | append_singleton as a ih =>
      have hview : (as ++ [a]).filterMap MonitorAction.view? =
          as.filterMap MonitorAction.view? ++ a.view?.toList := by
        cases a <;> simp [MonitorAction.view?]
      rw [hview, actAll, List.foldl_append]
      exact ih.act a

theorem isTested_of_mem_events (settings : PipelineSettings T) (as : List (MonitorAction T))
    (v : MonitorView T) {e : MonitorEvent T}
    (he : e ∈ ((actAll settings new as).step settings v).2) :
    ∃ v₁ v₂ v₃ v₄ later, later.length ≤ 2 ∧
      v₁ :: v₂ :: v₃ :: v₄ :: later <:+ as.filterMap MonitorAction.view? ∧
      e.IsTested settings (ofViews v₁ v₂ v₃ v₄) := by
  rcases isPolling_actAll settings as with hidle | ⟨seen, hsuffix, hpoll⟩
  · rw [events_of_isIdle hidle] at he
    exact absurd he List.not_mem_nil
  · obtain ⟨v₁, v₂, v₃, v₄, later, hlater, rfl, htested⟩ := hpoll.isTested he
    exact ⟨v₁, v₂, v₃, v₄, later, hlater, hsuffix, htested⟩

/-- A stretch counts as buffered if it is backed, and also if it is overrun and some span begins in
time. Whatever the monitor calls or reports in a run rests on four views in a row, of which the last
is at most two steps old, and is backed by them exactly if it is not overrun. -/
theorem backed_by_poll_iff (settings : PipelineSettings ExactTime) (hvalid : settings.IsValid) :
    (∀ (ranges : List (TimeRange ExactTime)) (start stop : ExactTime) (duration : Option ExactTime),
      start ≤ stop →
        (TimeRange.isBufferedUntil ranges start stop duration settings.endDelta = true ↔
          TimeRange.IsBacked ranges start stop duration settings.endDelta ∨
            TimeRange.IsOverrun ranges start stop duration settings.endDelta ∧
              ∃ r ∈ ranges, r.start ≤ start + maxGap)) ∧
    ∀ (as : List (MonitorAction ExactTime)) (v : MonitorView ExactTime),
      ∀ e ∈ ((actAll settings new as).step settings v).2,
        ∃ v₁ v₂ v₃ v₄ later, later.length ≤ 2 ∧
          v₁ :: v₂ :: v₃ :: v₄ :: later <:+ as.filterMap MonitorAction.view? ∧
          (e.IsBacked settings (ofViews v₁ v₂ v₃ v₄) ↔
            ¬ e.IsOverrun settings (ofViews v₁ v₂ v₃ v₄)) := by
  constructor
  · intro ranges start stop duration hle
    exact TimeRange.isBufferedUntil_iff_isBacked_or_isOverrun hle
  · intro as v e he
    obtain ⟨v₁, v₂, v₃, v₄, later, hlater, hsuffix, htested⟩ :=
      isTested_of_mem_events settings as v he
    exact ⟨v₁, v₂, v₃, v₄, later, hlater, hsuffix, htested.isBacked_iff hvalid⟩

def watch (v : MonitorView T) (n : Nat) : List (MonitorAction T) :=
  .start :: List.replicate n (.step v)

def stalledView : MonitorView ExactTime where
  buffered := [⟨0, .finite 5⟩]
  decoded := [⟨0, .finite 2⟩]
  time := 1
  duration := some (.finite 60)
  state := .stalled

theorem isValid_default : PipelineSettings.default (T := ExactTime).IsValid := by
  unfold PipelineSettings.IsValid
  decide +kernel

theorem backed_by_poll_iff_canPlay :
    PipelineSettings.default (T := ExactTime).IsValid ∧
    MonitorEvent.call .canPlay ∈
      ((actAll .default new (watch stalledView 6)).step .default stalledView).2 ∧
    ∃ v₁ v₂ v₃ v₄ later, later.length ≤ 2 ∧
      v₁ :: v₂ :: v₃ :: v₄ :: later <:+ (watch stalledView 6).filterMap MonitorAction.view? ∧
      ((MonitorEvent.call .canPlay).IsBacked PipelineSettings.default (ofViews v₁ v₂ v₃ v₄) ↔
        ¬ (MonitorEvent.call .canPlay).IsOverrun PipelineSettings.default
          (ofViews v₁ v₂ v₃ v₄)) := by
  have hcall : MonitorEvent.call .canPlay ∈
      ((actAll .default new (watch stalledView 6)).step .default stalledView).2 := by
    decide +kernel
  exact ⟨isValid_default, hcall, (backed_by_poll_iff .default isValid_default).2 _ _ _ hcall⟩

/-- A twentieth of a second before the end of the media, with nothing but its first seconds. -/
def pastData : MonitorView ExactTime where
  buffered := [⟨0, .finite 5⟩]
  decoded := [⟨0, .finite 5⟩]
  time := 59.95
  duration := some (.finite 60)
  state := .stalled

/-- The monitor lets it play and reports that there is enough, though all data lies in the past. -/
theorem pastData_canPlay :
    PipelineSettings.default (T := ExactTime).IsValid ∧
    MonitorEvent.call .canPlay ∈
      ((actAll .default new (watch pastData 6)).step .default pastData).2 ∧
    MonitorEvent.ready .enoughData ∈
      ((actAll .default new (watch pastData 7)).step .default pastData).2 ∧
    (∀ r ∈ pastData.buffered ++ pastData.decoded, r.stop < pastData.time) ∧
    ∀ ahead ∈ [0, PipelineSettings.default.needForPlay, PipelineSettings.default.needForEnough],
      TimeRange.isBufferedUntil pastData.buffered pastData.time (pastData.time + ahead)
        pastData.duration PipelineSettings.default.endDelta = true ∧
      ¬ ∃ r ∈ pastData.buffered, r.start ≤ pastData.time + maxGap ∧
        MediaTime.earlier (pastData.time + ahead)
          (.finite 60 - PipelineSettings.default.endDelta) ≤ r.stop := by
  refine ⟨isValid_default, ?_, ?_, ?_, ?_⟩
  all_goals decide +kernel

end Monitor

end MediaPipeline
