import MediaPipeline.Proofs.Playback.PlayedTime

/-!
# Calls that leave the media time where it is

A call that is no seek leaves the media time where it is, a new duration in front of it apart, since
the clock is put at the current time before anything else changes. A new duration is taken up
without that, and lets go of a media time that was held at the old one.
-/

namespace MediaPipeline

/-! ## Clocks with another duration -/

namespace MediaClock

open ExactTime

variable {c : MediaClock ExactTime} {t z : ExactTime} {duration : Option ExactTime}

theorem clamp_of_ge {d : ExactTime} (hd : d ∈ c.duration) (hle : d ≤ t) : c.clamp t = d := by
  rw [clamp, Option.mem_def.mp hd]
  exact earlier_of_ge hle

theorem lt_clamp (hlt : t < z) (hfits : ∀ d ∈ c.duration, t < d) : t < c.clamp z := by
  rcases c.clamp_eq_or z with heq | ⟨d, hd, heq⟩ <;> rw [heq]
  · exact hlt
  · exact hfits d hd

/-- A time is let go by another duration exactly if it was held at the old one, and the new one is
further on. -/
theorem clamp_with_duration_eq_iff (hfits : ∀ d ∈ duration, c.clamp t ≤ d) :
    { c with duration }.clamp t = c.clamp t ↔
      ¬ ∃ d ∈ c.duration, d < t ∧ ∀ d' ∈ duration, d < d' := by
  constructor
  · rintro heq ⟨d, hd, hlt, hnew⟩
    have hpast : d < { c with duration }.clamp t := lt_clamp hlt hnew
    rw [heq] at hpast
    exact MediaTime.not_le_of_lt hpast (clamp_le c t d hd)
  · intro hheld
    by_cases hfree : ∀ d ∈ c.duration, t ≤ d
    · rw [clamp_of_le hfree] at hfits ⊢
      exact clamp_of_le hfits
    · push Not at hfree hheld
      obtain ⟨d, hd, hnot⟩ := hfree
      have hpast : d ≤ t := (ExactTime.total t d).resolve_left hnot
      obtain ⟨d', hd', hback⟩ := hheld d hd (lt_iff_not_le.mpr hnot)
      rw [clamp_of_ge hd hpast] at hfits ⊢
      have hle : d' ≤ d := MediaTime.le_of_not_lt (ExactTime.refl d) (ExactTime.refl d') hback
      obtain rfl : d' = d := ExactTime.antisymm hle (hfits d' hd')
      exact clamp_of_ge (c := { c with duration }) hd' hpast

end MediaClock

namespace Pipeline

section Calls

variable {T : Type} [MediaTime T]

/-- The call is not made to put the media time somewhere else. -/
def IsSteady (p : Pipeline T) : PipelineCall T → Prop
  | .seek _ | .reachedEnd | .reset => False
  | .play => p.status ≠ .ended
  | _ => True

/-- Where the media time should be after such a call. -/
def landing (p : Pipeline T) (now : Nat) : PipelineCall T → T
  | .setDuration (some d) =>
    if p.status = .errored ∨ p.currentTime now ≤ d then p.currentTime now else d
  | _ => p.currentTime now

/-- The media time without regard to the duration. -/
def freeTime (p : Pipeline T) (now : Nat) : T :=
  p.syncMedia + MediaTime.ofNanos (now - p.syncWall) * p.rate

/-- Playback is held at the end of the media, which the call puts further on or takes away. -/
def LiftsEnd (p : Pipeline T) (now : Nat) : PipelineCall T → Prop
  | .setDuration duration =>
    p.status = .playing ∧ ∃ d ∈ p.duration, d < p.freeTime now ∧ ∀ d' ∈ duration, d < d'
  | _ => False

/-- Playback is let go on with the end of the media, which is before zero, behind it. -/
def StartsPastEnd (p : Pipeline T) (now : Nat) (c : PipelineCall T) : Prop :=
  c = .canPlay ∧ (p.status = .stalled ∨ p.status = .seekingPlay) ∧
    ∃ d ∈ p.duration, d < 0 ∧ d < p.currentTime now

variable {p q : Pipeline T} {now : Nat} {c : PipelineCall T}

/-! ## What leads to playing -/

theorem setDuration_cases (p : Pipeline T) (now : Nat) (duration : Option T) :
    (p.status = .errored ∧ (p.setDuration now duration).1 = p) ∨
    (p.status ≠ .errored ∧ (∀ d ∈ duration, p.currentTime now ≤ d) ∧
      (p.setDuration now duration).1 = { p with duration }) ∨
    ∃ d, duration = some d ∧ p.status ≠ .errored ∧ ¬ p.currentTime now ≤ d ∧
      (p.setDuration now duration).1.clock = { p.clock.anchor now d with duration } ∧
      (p.setDuration now duration).1.status ≠ .playing := by
  unfold setDuration
  split_ifs with herror
  · exact .inl ⟨herror, rfl⟩
  · cases duration with
    | none => exact .inr (.inl ⟨herror, by simp, rfl⟩)
    | some d =>
        by_cases hfits : p.currentTime now ≤ d
        · simp only [hfits, if_true]
          exact .inr (.inl ⟨herror, by simpa using hfits, trivial⟩)
        · simp only [hfits, if_false, moveTo_status]
          refine .inr (.inr ⟨d, rfl, herror, hfits, ?_⟩)
          cases hstatus : p.status with
          | playing | stalled | paused | ended => exact ⟨enterSeeking_clock _ _, by simp⟩
          | initializing | seekingPause | seekingPlay | errored => exact ⟨rfl, by simp⟩

/-- Nothing but data lets playback go on. -/
theorem playing_or_canPlay (hplaying : (p.call now c).1.status = .playing) :
    p.status = .playing ∨ c = .canPlay ∧ (p.status = .stalled ∨ p.status = .seekingPlay) := by
  cases c with
  | setDuration duration =>
      rcases setDuration_cases p now duration with
        ⟨-, hsame⟩ | ⟨-, -, hsame⟩ | ⟨d, -, -, -, -, hnot⟩
      · exact .inl (by simpa only [call, hsame] using hplaying)
      · exact .inl (by simpa only [call, hsame] using hplaying)
      · exact absurd hplaying hnot
  | reachedEnd =>
      simp only [call, reachedEnd] at hplaying
      split at hplaying <;> simp_all
  | seek | play | pause | canPlay =>
      simp only [call, seek, play, pause, canPlay] at hplaying
      split at hplaying <;> simp_all [sync]
  | doneInitializing | setRate | bufferingStarted | fail | reset =>
      simp only [call, doneInitializing, setRate, bufferingStarted, fail, reset] at hplaying
      split_ifs at hplaying <;> simp_all [sync]

end Calls

open ExactTime

variable {p q : Pipeline ExactTime} {c : PipelineCall ExactTime} {now : ℕ}

theorem currentTime_of_playing (hplaying : p.status = .playing) (now : ℕ) :
    p.currentTime now = p.clock.clamp (p.freeTime now) := by
  rw [currentTime_eq, if_pos hplaying]
  rfl

theorem clamp_currentTime (hplaying : p.status = .playing) (now : ℕ) :
    p.clock.clamp (p.currentTime now) = p.currentTime now := by
  rw [currentTime_of_playing hplaying]
  exact MediaClock.clamp_of_le (MediaClock.clamp_le _ _)

/-! ## Calls that put the clock at the current time -/

theorem currentTime_of_wall (hwall : q.clock.wall = now) :
    q.currentTime now =
      if q.status = .playing then q.clock.clamp q.clock.media else q.clock.media := by
  rw [currentTime_eq, MediaClock.running_of_wall hwall]

theorem Effect.currentTime_of_isSteady (heffect : Effect now p c q) (hc : p.IsSteady c)
    (hduration : ∀ duration, c ≠ .setDuration duration) :
    q.currentTime now =
      if q.status = .playing then p.clock.clamp (p.currentTime now) else p.currentTime now := by
  cases heffect with
  | keep hclock hplaying _ =>
      simp only [currentTime_eq q, hclock, hplaying]
      split_ifs with h
      · rw [clamp_currentTime h, currentTime_eq, if_pos h]
      · rw [currentTime_eq, if_neg h]
  | sync hclock _ | setRate _ hclock _ =>
      rw [currentTime_of_wall (by rw [hclock]; rfl), hclock]
      rfl
  | startOver hcall hended _ _ =>
      subst hcall
      exact absurd hended hc
  | seek hcall | finish hcall | reset hcall =>
      subst hcall
      exact hc.elim
  | resize hcall | cut hcall => exact absurd hcall (hduration _)

/-! ## New durations -/

theorem currentTime_setDuration_eq_landing_iff (p : Pipeline ExactTime) (now : ℕ)
    (duration : Option ExactTime) :
    (p.setDuration now duration).1.currentTime now = p.landing now (.setDuration duration) ↔
      ¬ p.LiftsEnd now (.setDuration duration) := by
  rcases setDuration_cases p now duration with
    ⟨herror, hsame⟩ | ⟨hok, hfits, htaken⟩ | ⟨d, rfl, hok, hover, hclock, hstill⟩
  · have hland : p.landing now (.setDuration duration) = p.currentTime now := by
      cases duration <;> simp [landing, herror]
    simp [hsame, hland, LiftsEnd, herror]
  · have hland : p.landing now (.setDuration duration) = p.currentTime now := by
      cases duration <;> simp_all [landing]
    rw [htaken, hland]
    by_cases hplaying : p.status = .playing
    · have hnew : { p with duration }.currentTime now =
          { p.clock with duration }.clamp (p.freeTime now) :=
        currentTime_of_playing (p := { p with duration }) hplaying now
      rw [currentTime_of_playing hplaying] at hfits
      rw [hnew, currentTime_of_playing hplaying, MediaClock.clamp_with_duration_eq_iff hfits,
        LiftsEnd]
      simp only [hplaying, true_and]
      rfl
    · simp [currentTime_eq, hplaying, LiftsEnd, clock]
  · have hland : p.landing now (.setDuration (some d)) = d := by
      simp [landing, hok, hover]
    have hnow : (p.setDuration now (some d)).1.currentTime now = d := by
      rw [currentTime_eq, if_neg hstill, hclock]
      rfl
    rw [hland, hnow]
    refine iff_of_true rfl ?_
    rintro ⟨hplaying, d₀, hd₀, -, hnew⟩
    rw [currentTime_of_playing hplaying] at hover
    have hle : p.clock.clamp (p.freeTime now) ≤ d₀ := MediaClock.clamp_le _ _ d₀ hd₀
    exact hover (LawfulMediaTime.le_trans hle (MediaTime.le_of_lt (hnew d rfl)))

theorem canPlay_status (hstatus : p.status = .stalled ∨ p.status = .seekingPlay) :
    (p.canPlay now).1.status = .playing := by
  rcases hstatus with hstatus | hstatus <;> simp [canPlay, hstatus]

/-- Only a duration below zero can be in front of a media time that stands still. -/
theorem StandsInMedia.clamp_eq_iff (hp : p.StandsInMedia) :
    p.clock.clamp (p.currentTime now) = p.currentTime now ↔
      ¬ ∃ d ∈ p.duration, d < 0 ∧ d < p.currentTime now := by
  constructor
  · rintro heq ⟨d, hd, -, hpast⟩
    exact MediaTime.not_le_of_lt hpast (heq ▸ MediaClock.clamp_le _ _ d hd)
  · intro hnone
    refine MediaClock.clamp_of_le fun d hd => ?_
    by_contra hpast
    have hnonneg : ¬ d < 0 := fun hneg => hnone ⟨d, hd, hneg, lt_iff_not_le.mpr hpast⟩
    have hle : 0 ≤ d := MediaTime.le_of_not_lt (ExactTime.refl d) (ExactTime.refl 0) hnonneg
    exact hpast (hp.currentTime_le d hd hle)

/-! ## Every call -/

theorem currentTime_call_eq_landing_iff (hp : p.StandsInMedia) (hc : p.IsSteady c) :
    (p.call now c).1.currentTime now = p.landing now c ↔
      ¬ p.LiftsEnd now c ∧ ¬ p.StartsPastEnd now c := by
  by_cases hduration : ∃ duration, c = .setDuration duration
  · obtain ⟨duration, rfl⟩ := hduration
    simp [call, currentTime_setDuration_eq_landing_iff, StartsPastEnd]
  · push Not at hduration
    have hland : p.landing now c = p.currentTime now := by
      cases c <;> simp_all [landing]
    have hlift : ¬ p.LiftsEnd now c := by
      cases c <;> simp_all [LiftsEnd]
    rw [(effect_call p now c).currentTime_of_isSteady hc hduration, hland, and_iff_right hlift]
    by_cases hplaying : (p.call now c).1.status = .playing
    · rw [if_pos hplaying]
      rcases playing_or_canPlay hplaying with hbefore | ⟨rfl, hstatus⟩
      · refine iff_of_true (clamp_currentTime hbefore now) ?_
        rintro ⟨-, hstatus | hstatus, -⟩ <;> simp [hbefore] at hstatus
      · simp [StartsPastEnd, hstatus, hp.clamp_eq_iff]
    · rw [if_neg hplaying]
      refine iff_of_true rfl ?_
      rintro ⟨rfl, hstatus, -⟩
      exact hplaying (canPlay_status hstatus)

end Pipeline

/-! ## Whole runs -/

namespace PlaybackSystem

open ExactTime

variable {x : PlaybackSystem ExactTime} {c : PipelineCall ExactTime}

theorem standsInMedia_actAll (hx : x.pipeline.StandsInMedia)
    (as : List (PlaybackAction ExactTime)) : (x.actAll as).pipeline.StandsInMedia := by
  induction as generalizing x with
  | nil => exact hx
  | cons a as ih =>
      refine ih ?_
      cases a with
      | advance n => exact hx
      | call c => exact (Pipeline.effect_call x.pipeline x.now c).standsInMedia hx

/-- In any state that calls lead to, a call that is no seek leaves the media time where it is, or
puts it at a new duration in front of it, exactly if it does not lift an end that playback is held
at, and does not let playback go on past an end below zero. -/
theorem time_call_eq_landing_iff {start : ℕ} {past : List (PlaybackAction ExactTime)}
    (hx : (new start).actAll past = x) (hc : x.pipeline.IsSteady c) :
    (x.act (.call c)).time = x.pipeline.landing x.now c ↔
      ¬ x.pipeline.LiftsEnd x.now c ∧ ¬ x.pipeline.StartsPastEnd x.now c := by
  have hnew : (Pipeline.new start : Pipeline ExactTime).StandsInMedia := by
    simp [Pipeline.StandsInMedia, Pipeline.clock, Pipeline.new]
  exact Pipeline.currentTime_call_eq_landing_iff (hx ▸ standsInMedia_actAll hnew past) hc

theorem time_call_eq_landing_iff_twoSecondsIn :
    ¬ twoSecondsIn.pipeline.LiftsEnd twoSecondsIn.now (.setDuration (some (.finite 20))) ∧
      twoSecondsIn.pipeline.landing twoSecondsIn.now (.setDuration (some (.finite 20))) =
        .finite 2 ∧
      (twoSecondsIn.act (.call (.setDuration (some (.finite 20))))).time = .finite 2 := by
  have hfree : ¬ twoSecondsIn.pipeline.LiftsEnd twoSecondsIn.now
      (.setDuration (some (.finite 20))) := by
    unfold Pipeline.LiftsEnd
    decide +kernel
  have hland : twoSecondsIn.pipeline.landing twoSecondsIn.now
      (.setDuration (some (.finite 20))) = .finite 2 := by
    decide +kernel
  have hsteady : twoSecondsIn.pipeline.IsSteady (.setDuration (some (.finite 20))) := trivial
  have hiff := time_call_eq_landing_iff (show (new 0).actAll _ = twoSecondsIn from rfl) hsteady
  refine ⟨hfree, hland, ?_⟩
  rw [hiff.mpr ⟨hfree, by simp [Pipeline.StartsPastEnd]⟩, hland]

/-- Ten seconds of media, two seconds after the end was reached. -/
def heldAtEnd : PlaybackSystem ExactTime := twoSecondsIn.actAll [.advance 10000000000]

/-- The duration is raised while playback is held at it, and the media time jumps by the two seconds
that have passed since. -/
theorem heldAtEnd_jumps :
    heldAtEnd.pipeline.IsSteady (.setDuration (some (.finite 20))) ∧
      heldAtEnd.time = .finite 10 ∧
      heldAtEnd.pipeline.landing heldAtEnd.now (.setDuration (some (.finite 20))) = .finite 10 ∧
      (heldAtEnd.act (.call (.setDuration (some (.finite 20))))).time = .finite 12 :=
  ⟨trivial, by decide +kernel, by decide +kernel, by decide +kernel⟩

end PlaybackSystem

end MediaPipeline
