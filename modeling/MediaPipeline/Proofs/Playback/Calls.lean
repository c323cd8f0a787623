import Mathlib.Tactic.Common
import MediaPipeline.Pipeline.Basic

/-!
# What calls do to the media time

The media time is derived from four fields of a pipeline. Every call leaves them as they are, starts
them anew from the current time, or is one of the few that put the media time somewhere else.
-/

namespace MediaPipeline

structure MediaClock (T : Type) where
  media : T
  wall : Nat
  rate : T
  duration : Option T

namespace MediaClock

variable {T : Type} [MediaTime T]

def clamp (c : MediaClock T) (time : T) : T :=
  match c.duration with
  | some d => MediaTime.earlier time d
  | none => time

/-- The media time of a clock that runs. -/
def running (c : MediaClock T) (now : Nat) : T :=
  c.clamp (c.media + MediaTime.ofNanos (now - c.wall) * c.rate)

def anchor (c : MediaClock T) (now : Nat) (time : T) : MediaClock T :=
  { c with media := time, wall := now }

end MediaClock

namespace Pipeline

variable {T : Type} [MediaTime T] {p q : Pipeline T} {now : Nat}

def clock (p : Pipeline T) : MediaClock T := ⟨p.syncMedia, p.syncWall, p.rate, p.duration⟩

theorem currentTime_eq (p : Pipeline T) (now : Nat) :
    p.currentTime now = if p.status = .playing then p.clock.running now else p.clock.media := rfl

omit [MediaTime T] in
@[simp] theorem enter_clock (p : Pipeline T) (new : PlaybackState) :
    (p.enter new).1.clock = p.clock := by
  unfold enter
  split_ifs <;> rfl

omit [MediaTime T] in
@[simp] theorem enter_status (p : Pipeline T) (new : PlaybackState) :
    (p.enter new).1.status = new := by
  unfold enter
  split_ifs with hsame
  · exact hsame
  · rfl

omit [MediaTime T] in
@[simp] theorem enterSeeking_clock (p : Pipeline T) (new : PlaybackState) :
    (p.enterSeeking new).1.clock = p.clock := enter_clock p new

omit [MediaTime T] in
@[simp] theorem enterSeeking_status (p : Pipeline T) (new : PlaybackState) :
    (p.enterSeeking new).1.status = new := enter_status p new

@[simp] theorem sync_clock (p : Pipeline T) (now : Nat) :
    (p.sync now).clock = p.clock.anchor now (p.currentTime now) := rfl

omit [MediaTime T] in
@[simp] theorem moveTo_clock (p : Pipeline T) (now : Nat) (time : T) :
    (p.moveTo now time).clock = p.clock.anchor now time := rfl

omit [MediaTime T] in
@[simp] theorem moveTo_status (p : Pipeline T) (now : Nat) (time : T) :
    (p.moveTo now time).status = p.status := rfl

/-- What a call leads to, with the state that it is made in. -/
inductive Effect (now : Nat) (p : Pipeline T) (c : PipelineCall T) : Pipeline T → Prop
  | keep {q : Pipeline T} (hclock : q.clock = p.clock)
      (hplaying : q.status = .playing ↔ p.status = .playing)
      (hended : q.status = .ended → p.status = .ended) : Effect now p c q
  | sync {q : Pipeline T} (hclock : q.clock = p.clock.anchor now (p.currentTime now))
      (hended : q.status = .ended → p.status = .ended) : Effect now p c q
  | setRate {q : Pipeline T} {rate : T} (hcall : c = .setRate rate)
      (hclock : q.clock = { p.clock.anchor now (p.currentTime now) with rate })
      (hstatus : q.status = p.status) : Effect now p c q
  | seek {q : Pipeline T} {time : T} (hcall : c = .seek time)
      (hclock : q.clock = p.clock.anchor now (p.clock.clamp (MediaTime.later time 0)))
      (hstatus : q.status ≠ .playing) : Effect now p c q
  | startOver {q : Pipeline T} (hcall : c = .play) (hended : p.status = .ended)
      (hclock : q.clock = p.clock.anchor now 0)
      (hstatus : q.status = .seekingPlay) : Effect now p c q
  | finish {q : Pipeline T} {d : T} (hcall : c = .reachedEnd) (hduration : p.duration = some d)
      (hclock : q.clock = p.clock.anchor now d) (hstatus : q.status = .ended) : Effect now p c q
  | resize {q : Pipeline T} {duration : Option T} (hcall : c = .setDuration duration)
      (hfits : ∀ d ∈ duration, p.currentTime now ≤ d)
      (hclock : q.clock = { p.clock with duration }) (hstatus : q.status = p.status) :
      Effect now p c q
  | cut {q : Pipeline T} {d : T} (hcall : c = .setDuration (some d))
      (hover : ¬ p.currentTime now ≤ d)
      (hclock : q.clock = { p.clock.anchor now d with duration := some d })
      (hstatus : q.status ≠ .playing) : Effect now p c q
  | reset {q : Pipeline T} (hcall : c = .reset)
      (hclock : q.clock = { p.clock.anchor now 0 with duration := none })
      (hstatus : q.status = .initializing) : Effect now p c q

theorem Effect.refl (now : Nat) (p : Pipeline T) (c : PipelineCall T) : Effect now p c p :=
  .keep rfl Iff.rfl id

/-- Starting anew in another state. -/
theorem Effect.sync_enter (now : Nat) (p : Pipeline T) (c : PipelineCall T) {new : PlaybackState}
    (hnew : new ≠ .ended) : Effect now p c ((p.sync now).enter new).1 :=
  .sync (by simp) (by simp [hnew])

theorem effect_doneInitializing (p : Pipeline T) (now : Nat) :
    Effect now p .doneInitializing p.doneInitializing.1 := by
  unfold doneInitializing
  split_ifs with hstatus hauto
  · exact .keep (enter_clock p _) (by simp [hstatus]) (by simp)
  · exact .keep (enter_clock p _) (by simp [hstatus]) (by simp)
  · exact .refl now p _

theorem effect_setDuration (p : Pipeline T) (now : Nat) (duration : Option T) :
    Effect now p (.setDuration duration) (p.setDuration now duration).1 := by
  unfold setDuration
  split_ifs with herror
  · exact .refl now p _
  · cases duration with
    | none => exact .resize rfl (by simp) rfl rfl
    | some d =>
        by_cases hfits : p.currentTime now ≤ d
        · simp only [hfits, if_true]
          exact .resize rfl (by simpa using hfits) rfl rfl
        · simp only [hfits, if_false, moveTo_status]
          cases hstatus : p.status with
          | playing | stalled | paused | ended =>
              exact .cut rfl hfits (enterSeeking_clock _ _) (by simp)
          | initializing | seekingPause | seekingPlay | errored =>
              exact .cut rfl hfits rfl (by simp)

theorem effect_seek (p : Pipeline T) (now : Nat) (time : T) :
    Effect now p (.seek time) (p.seek now time).1 := by
  unfold seek
  cases p.status with
  | initializing | errored => exact .refl now p _
  | playing | stalled | seekingPlay => exact .seek rfl (enterSeeking_clock _ _) (by simp)
  | paused | ended | seekingPause => exact .seek rfl (enterSeeking_clock _ _) (by simp)

theorem effect_setRate (p : Pipeline T) (now : Nat) (rate : T) :
    Effect now p (.setRate rate) (p.setRate now rate).1 := by
  unfold setRate
  split_ifs
  · exact .refl now p _
  · exact .setRate rfl rfl rfl

theorem effect_play (p : Pipeline T) (now : Nat) : Effect now p .play (p.play now).1 := by
  unfold play
  cases hstatus : p.status with
  | errored => exact .refl now p _
  | paused | seekingPause => exact .sync_enter now p _ (by decide)
  | ended => exact .startOver rfl hstatus (enterSeeking_clock _ _) (enterSeeking_status _ _)
  | initializing | playing | seekingPlay | stalled => exact .sync rfl id

theorem effect_pause (p : Pipeline T) (now : Nat) : Effect now p .pause (p.pause now).1 := by
  unfold pause
  cases p.status with
  | errored => exact .refl now p _
  | playing | stalled | seekingPlay => exact .sync_enter now p _ (by decide)
  | initializing | paused | seekingPause | ended => exact .sync rfl id

theorem effect_bufferingStarted (p : Pipeline T) (now : Nat) :
    Effect now p .bufferingStarted (p.bufferingStarted now).1 := by
  unfold bufferingStarted
  split_ifs
  · exact .sync_enter now p _ (by decide)
  · exact .refl now p _

theorem effect_canPlay (p : Pipeline T) (now : Nat) : Effect now p .canPlay (p.canPlay now).1 := by
  unfold canPlay
  cases p.status with
  | errored => exact .refl now p _
  | stalled | seekingPlay | seekingPause => exact .sync_enter now p _ (by decide)
  | initializing | paused | playing | ended => exact .sync rfl id

theorem effect_reachedEnd (p : Pipeline T) (now : Nat) :
    Effect now p .reachedEnd (p.reachedEnd now).1 := by
  unfold reachedEnd
  cases hduration : p.duration with
  | none => cases p.status <;> exact .refl now p _
  | some d =>
      cases p.status with
      | ended | errored => exact .refl now p _
      | _ => exact .finish rfl hduration (enter_clock _ _) (enter_status _ _)

theorem effect_fail (p : Pipeline T) (now : Nat) : Effect now p .fail (p.fail now).1 := by
  unfold fail
  split_ifs
  · exact .refl now p _
  · exact .sync_enter now p _ (by decide)

theorem effect_reset (p : Pipeline T) (now : Nat) : Effect now p .reset (p.reset now).1 := by
  unfold reset
  split_ifs
  · exact .refl now p _
  · exact .reset rfl (enter_clock _ _) (enter_status _ _)

theorem effect_call (p : Pipeline T) (now : Nat) (c : PipelineCall T) :
    Effect now p c (p.call now c).1 := by
  cases c with
  | doneInitializing => exact effect_doneInitializing p now
  | setDuration duration => exact effect_setDuration p now duration
  | seek time => exact effect_seek p now time
  | setRate rate => exact effect_setRate p now rate
  | play => exact effect_play p now
  | pause => exact effect_pause p now
  | bufferingStarted => exact effect_bufferingStarted p now
  | canPlay => exact effect_canPlay p now
  | reachedEnd => exact effect_reachedEnd p now
  | fail => exact effect_fail p now
  | reset => exact effect_reset p now

/-! ## Errors -/

/-- A pipeline in error does nothing and says nothing. -/
theorem call_of_errored (h : p.status = .errored) (now : Nat) (c : PipelineCall T) :
    p.call now c = (p, []) := by
  cases c with
  | doneInitializing => simp [call, doneInitializing, h]
  | setDuration duration => simp [call, setDuration, h]
  | seek time => simp [call, seek, h]
  | setRate rate => simp [call, setRate, h]
  | play => simp [call, play, h]
  | pause => simp [call, pause, h]
  | bufferingStarted => simp [call, bufferingStarted, h]
  | canPlay => simp [call, canPlay, h]
  | reachedEnd => simp [call, reachedEnd, h]
  | fail => simp [call, fail, h]
  | reset => simp [call, reset, h]

end Pipeline

end MediaPipeline
