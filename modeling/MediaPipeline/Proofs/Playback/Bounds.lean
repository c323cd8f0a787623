import MediaPipeline.Proofs.Playback.PlayedTime

/-!
# The media time is within the media

While rates and durations are not negative, the media time is never below zero or past the duration,
whatever the wall clock does. The time at the sync point is within these bounds in every state, so
a wall clock that went back, which reads as one that stood still, does no harm.
-/

namespace MediaPipeline

/-! ## Bounded clocks -/

namespace MediaClock

open ExactTime

variable {c : MediaClock ExactTime} {now wall : ℕ} {t : ExactTime}

theorem le_clamp {z : ExactTime} (hle : t ≤ z) (hfits : ∀ d ∈ c.duration, t ≤ d) :
    t ≤ c.clamp z := by
  rcases c.clamp_eq_or z with heq | ⟨d, hd, heq⟩ <;> rw [heq]
  · exact hle
  · exact hfits d hd

/-- The clock was put inside the media, and does not run back. -/
structure IsBounded (c : MediaClock ExactTime) : Prop where
  media_nonneg : 0 ≤ c.media
  rate_nonneg : 0 ≤ c.rate
  duration_nonneg : ∀ d ∈ c.duration, 0 ≤ d
  media_le : ∀ d ∈ c.duration, c.media ≤ d

theorem IsBounded.media_le_running (hc : c.IsBounded) (now : ℕ) : c.media ≤ c.running now :=
  le_clamp (le_add_of_nonneg (ofNanos_mul_nonneg _ hc.rate_nonneg) _) hc.media_le

theorem IsBounded.anchor (hc : c.IsBounded) (htime : 0 ≤ t) (hfits : ∀ d ∈ c.duration, t ≤ d) :
    (c.anchor now t).IsBounded :=
  ⟨htime, hc.rate_nonneg, hc.duration_nonneg, hfits⟩

end MediaClock

/-! ## Calls with any readings of the wall clock -/

/-- A rate or a duration that is set is not negative. -/
def PipelineCall.IsProper : PipelineCall ExactTime → Prop
  | setRate rate => 0 ≤ rate
  | setDuration (some d) => 0 ≤ d
  | _ => True

namespace Pipeline

/-- Calls one after another, each with what the wall clock reads at that moment. -/
def callAll {T : Type} [MediaTime T] (p : Pipeline T) (cs : List (Nat × PipelineCall T)) :
    Pipeline T :=
  cs.foldl (fun p c => (p.call c.1 c.2).1) p

theorem callAll_of_errored {T : Type} [MediaTime T] {p : Pipeline T} (h : p.status = .errored)
    (cs : List (Nat × PipelineCall T)) : p.callAll cs = p := by
  induction cs with
  | nil => rfl
  | cons c cs ih =>
      rw [callAll, List.foldl_cons, call_of_errored h]
      exact ih

open ExactTime

variable {p q : Pipeline ExactTime} {c : PipelineCall ExactTime} {now : ℕ}

theorem media_le_currentTime (hp : p.clock.IsBounded) (now : ℕ) :
    p.clock.media ≤ p.currentTime now := by
  rw [currentTime_eq]
  split_ifs
  · exact hp.media_le_running now
  · exact ExactTime.refl _

theorem currentTime_nonneg (hp : p.clock.IsBounded) (now : ℕ) : 0 ≤ p.currentTime now :=
  LawfulMediaTime.le_trans hp.media_nonneg (media_le_currentTime hp now)

theorem currentTime_le (hp : p.clock.IsBounded) (now : ℕ) :
    ∀ d ∈ p.clock.duration, p.currentTime now ≤ d := by
  rw [currentTime_eq]
  split_ifs
  · exact MediaClock.clamp_le _ _
  · exact hp.media_le

theorem Effect.isBounded (heffect : Effect now p c q) (hp : p.clock.IsBounded)
    (hc : c.IsProper) : q.clock.IsBounded := by
  have htime : (p.clock.anchor now (p.currentTime now)).IsBounded :=
    hp.anchor (currentTime_nonneg hp now) (currentTime_le hp now)
  cases heffect with
  | keep hclock _ _ => exact hclock ▸ hp
  | sync hclock _ => exact hclock ▸ htime
  | setRate hcall hclock _ =>
      subst hcall
      exact hclock ▸ { htime with rate_nonneg := hc }
  | @seek t _ hclock _ =>
      have hlater : 0 ≤ MediaTime.later t 0 :=
        (MediaTime.le_later (ExactTime.refl t) (ExactTime.refl 0)).2
      have hclamp : 0 ≤ p.clock.clamp (MediaTime.later t 0) :=
        MediaClock.le_clamp hlater hp.duration_nonneg
      exact hclock ▸ hp.anchor hclamp (MediaClock.clamp_le _ _)
  | startOver _ _ hclock _ => exact hclock ▸ hp.anchor (ExactTime.refl 0) hp.duration_nonneg
  | @finish d _ hduration hclock _ =>
      refine hclock ▸ hp.anchor (hp.duration_nonneg d hduration) ?_
      intro d' hd'
      exact Option.some.inj (hduration.symm.trans hd') ▸ ExactTime.refl d
  | @resize duration hcall hfits hclock _ =>
      -- The clock is not put anew, but it was put in front of the time that the new end allows.
      subst hcall
      rw [hclock]
      refine ⟨hp.media_nonneg, hp.rate_nonneg, ?_, ?_⟩
      · rintro d rfl
        exact hc
      · exact fun d hd => LawfulMediaTime.le_trans (media_le_currentTime hp now) (hfits d hd)
  | @cut d hcall _ hclock _ =>
      subst hcall
      rw [hclock]
      refine ⟨hc, hp.rate_nonneg, ?_, ?_⟩
      · rintro _ ⟨⟩
        exact hc
      · rintro _ ⟨⟩
        exact ExactTime.refl d
  | reset _ hclock _ => exact hclock ▸ ⟨ExactTime.refl 0, hp.rate_nonneg, by simp, by simp⟩

theorem isBounded_callAll {cs : List (ℕ × PipelineCall ExactTime)} (hp : p.clock.IsBounded)
    (hcs : ∀ c ∈ cs, c.2.IsProper) : (p.callAll cs).clock.IsBounded := by
  induction cs generalizing p with
  | nil => exact hp
  | cons c cs ih =>
      obtain ⟨hc, hcs⟩ := List.forall_mem_cons.mp hcs
      exact ih ((effect_call p c.1 c.2).isBounded hp hc) hcs

theorem isBounded_new (start : ℕ) : (Pipeline.new start : Pipeline ExactTime).clock.IsBounded :=
  ⟨ExactTime.refl 0, show (0 : ExactTime) ≤ 1 by decide +kernel, by simp [clock, Pipeline.new],
    by simp [clock, Pipeline.new]⟩

/-! ## Seeks -/

def AcceptsSeeks {T : Type} (p : Pipeline T) : Prop :=
  p.status ≠ .initializing ∧ p.status ≠ .errored

theorem seek_clock (haccept : p.AcceptsSeeks) (now : ℕ) (t : ExactTime) :
    (p.seek now t).1.clock = p.clock.anchor now (p.clock.clamp (MediaTime.later t 0)) ∧
      (p.seek now t).1.status.isSeeking = true := by
  obtain ⟨hinit, herror⟩ := haccept
  unfold seek
  cases hstatus : p.status with
  | initializing => exact absurd hstatus hinit
  | errored => exact absurd hstatus herror
  | playing | stalled | seekingPlay | paused | ended | seekingPause =>
      exact ⟨enterSeeking_clock _ _, by simp [PlaybackState.isSeeking]⟩

theorem currentTime_of_isSeeking (hseeking : p.status.isSeeking = true) (now : ℕ) :
    p.currentTime now = p.clock.media := by
  rw [currentTime_eq, if_neg]
  intro hplaying
  rw [hplaying] at hseeking
  cases hseeking

/-- After any proper calls, the wall clock reading whatever it may at each of them and now, the
media time is between zero and the duration, and a seek puts it at the time asked for, brought
between zero and the duration. -/
theorem time_within_media {start : ℕ} {cs : List (ℕ × PipelineCall ExactTime)}
    (hcs : ∀ c ∈ cs, c.2.IsProper) (hp : (Pipeline.new start).callAll cs = p) :
    (∀ now, 0 ≤ p.currentTime now ∧ ∀ d ∈ p.duration, p.currentTime now ≤ d) ∧
      ∀ wall t now, p.AcceptsSeeks →
        (p.seek wall t).1.duration = p.duration ∧
        (∀ d ∈ p.duration,
          (p.seek wall t).1.currentTime now = MediaTime.earlier (MediaTime.later t 0) d) ∧
        (p.duration = none → (p.seek wall t).1.currentTime now = MediaTime.later t 0) := by
  have hbounded : p.clock.IsBounded := hp ▸ isBounded_callAll (isBounded_new start) hcs
  refine ⟨fun now => ⟨currentTime_nonneg hbounded now, currentTime_le hbounded now⟩, ?_⟩
  intro wall t now haccept
  obtain ⟨hclock, hseeking⟩ := seek_clock haccept wall t
  have htime : (p.seek wall t).1.currentTime now = p.clock.clamp (MediaTime.later t 0) := by
    rw [currentTime_of_isSeeking hseeking, hclock]
    rfl
  refine ⟨congrArg MediaClock.duration hclock, ?_, ?_⟩
  · intro d hd
    rw [htime, MediaClock.clamp, clock, Option.mem_def.mp hd]
  · intro hnone
    rw [htime, MediaClock.clamp, clock, hnone]

/-- Playback at three times the speed, set while the wall clock goes back. -/
def backwardRun : List (ℕ × PipelineCall ExactTime) :=
  [(7000000000, .setDuration (some (.finite 8))), (7000000000, .doneInitializing),
    (6000000000, .play), (6000000000, .canPlay), (2000000000, .setRate (.finite 3))]

theorem time_within_media_backwardRun :
    let p := (Pipeline.new 9000000000).callAll backwardRun
    (∀ now, 0 ≤ p.currentTime now ∧ ∀ d ∈ p.duration, p.currentTime now ≤ d) ∧
      p.currentTime 1000000000 = 0 ∧ p.currentTime 4000000000 = .finite 6 ∧
      p.currentTime 5000000000 = .finite 8 ∧
      ∀ now, (p.seek 1000000000 (.finite 20)).1.currentTime now =
        MediaTime.earlier (MediaTime.later (.finite 20) 0) (.finite 8) := by
  intro p
  have hproper : ∀ c ∈ backwardRun, c.2.IsProper := by
    simp [backwardRun, PipelineCall.IsProper, zero_eq]
  have hp : (Pipeline.new 9000000000).callAll backwardRun = p := rfl
  obtain ⟨hbounds, hseek⟩ := time_within_media hproper hp
  have haccept : p.AcceptsSeeks := by
    unfold AcceptsSeeks
    decide +kernel
  refine ⟨hbounds, by decide +kernel, by decide +kernel, by decide +kernel, fun now => ?_⟩
  exact (hseek 1000000000 (.finite 20) now haccept).2.1 (.finite 8) (by decide +kernel)

end Pipeline

end MediaPipeline
