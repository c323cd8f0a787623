import MediaPipeline.Proofs.Playback.Calls
import MediaPipeline.Proofs.Time.Exact

/-!
# Media time is the time played

Between two seeks the media time moves on by the wall time spent playing, each stretch of it at the
rate of that moment, up to the duration. Starting the media time anew, as often as may be, changes
nothing.
-/

namespace MediaPipeline

/-! ## Runs -/

structure PlaybackSystem (T : Type) where
  pipeline : Pipeline T
  now : Nat

inductive PlaybackAction (T : Type) where
  | advance (nanos : Nat)
  | call (c : PipelineCall T)

namespace PlaybackAction

/-- The rate that is set is not negative. -/
def IsForward : PlaybackAction ExactTime → Prop
  | call (.setRate rate) => 0 ≤ rate
  | _ => True

/-- Wall time passes, or playback is started, stopped or made faster or slower. -/
def IsTransport : PlaybackAction ExactTime → Prop
  | advance _ | call .play | call .pause | call .bufferingStarted | call .canPlay => True
  | call (.setRate rate) => 0 ≤ rate
  | _ => False

theorem IsTransport.isForward {a : PlaybackAction ExactTime} (ha : a.IsTransport) :
    a.IsForward := by
  cases a with
  | advance n => trivial
  | call c => cases c <;> simp_all [IsTransport, IsForward]

end PlaybackAction

namespace PlaybackSystem

section Runs

variable {T : Type} [MediaTime T]

def new (now : Nat) : PlaybackSystem T := ⟨.new now, now⟩

def act (x : PlaybackSystem T) : PlaybackAction T → PlaybackSystem T
  | .advance n => { x with now := x.now + n }
  | .call c => { x with pipeline := (x.pipeline.call x.now c).1 }

def actAll (x : PlaybackSystem T) (as : List (PlaybackAction T)) : PlaybackSystem T :=
  as.foldl act x

def time (x : PlaybackSystem T) : T := x.pipeline.currentTime x.now

def played (x : PlaybackSystem T) : PlaybackAction T → T
  | .advance n =>
    if x.pipeline.status = .playing then MediaTime.ofNanos n * x.pipeline.rate else 0
  | .call _ => 0

def playedAll (x : PlaybackSystem T) : List (PlaybackAction T) → T
  | [] => 0
  | a :: as => x.played a + (x.act a).playedAll as

end Runs

end PlaybackSystem

/-! ## Clocks that are put and run on -/

namespace MediaClock

open ExactTime

variable {c : MediaClock ExactTime} {now n : ℕ} {t z : ExactTime}

theorem clamp_of_le (ht : ∀ d ∈ c.duration, t ≤ d) : c.clamp t = t := by
  unfold clamp
  cases hduration : c.duration with
  | none => rfl
  | some d => exact earlier_of_le (ht d hduration)

theorem clamp_le (c : MediaClock ExactTime) (t : ExactTime) : ∀ d ∈ c.duration, c.clamp t ≤ d := by
  intro d hd
  rw [clamp, Option.mem_def.mp hd]
  exact (MediaTime.earlier_le (ExactTime.refl t) (ExactTime.refl d)).2

theorem clamp_eq_or (c : MediaClock ExactTime) (t : ExactTime) :
    c.clamp t = t ∨ ∃ d ∈ c.duration, c.clamp t = d := by
  unfold clamp
  cases c.duration with
  | none => exact Or.inl rfl
  | some d => exact (MediaTime.earlier_eq_or t d).imp_right fun heq => ⟨d, rfl, heq⟩

theorem clamp_clamp_add (hz : 0 ≤ z) : c.clamp (c.clamp t + z) = c.clamp (t + z) := by
  unfold clamp
  cases c.duration with
  | none => rfl
  | some d => exact earlier_earlier_add hz t d

/-- Running on from a moment is running on from the time at that moment. -/
theorem running_add (hwall : c.wall ≤ now) (hrate : 0 ≤ c.rate) :
    c.running (now + n) = c.clamp (c.running now + MediaTime.ofNanos n * c.rate) := by
  have hnanos : now + n - c.wall = now - c.wall + n := by omega
  rw [running, hnanos, ofNanos_add_mul, ← ExactTime.add_assoc, running,
    clamp_clamp_add (ofNanos_mul_nonneg n hrate)]

theorem running_of_wall (hwall : c.wall = now) : c.running now = c.clamp c.media := by
  rw [running, hwall, Nat.sub_self, ofNanos_zero_mul, ExactTime.add_zero]

end MediaClock

namespace Pipeline

open ExactTime

variable {p q : Pipeline ExactTime} {c : PipelineCall ExactTime} {now n : ℕ}

/-- A clock that has just been put at a time shows it, whether it runs or not. -/
theorem currentTime_of_clock {time rate : ExactTime} {duration : Option ExactTime}
    (hclock : p.clock = ⟨time, now, rate, duration⟩) (hfits : ∀ d ∈ duration, time ≤ d) :
    p.currentTime now = time := by
  rw [currentTime_eq, hclock]
  split_ifs
  · rw [MediaClock.running_of_wall rfl, MediaClock.clamp_of_le hfits]
  · rfl

/-- A media time that stands still is within the bounds of the media, unless these are empty. -/
def StandsInMedia (p : Pipeline ExactTime) : Prop :=
  p.status ≠ .playing → ∀ d ∈ p.clock.duration, 0 ≤ d → p.clock.media ≤ d

theorem StandsInMedia.currentTime_le (hp : p.StandsInMedia) :
    ∀ d ∈ p.clock.duration, 0 ≤ d → p.currentTime now ≤ d := by
  intro d hd hnonneg
  rw [currentTime_eq]
  split_ifs with hplaying
  · exact MediaClock.clamp_le _ _ d hd
  · exact hp hplaying d hd hnonneg

theorem standsInMedia_of_clock {time rate : ExactTime} {duration : Option ExactTime}
    (hclock : q.clock = ⟨time, now, rate, duration⟩) (hfits : ∀ d ∈ duration, 0 ≤ d → time ≤ d) :
    q.StandsInMedia := by
  intro _
  rw [hclock]
  exact hfits

theorem Effect.standsInMedia (heffect : Effect now p c q) (hp : p.StandsInMedia) :
    q.StandsInMedia := by
  cases heffect with
  | keep hclock hplaying _ =>
      intro hstill
      rw [hclock]
      exact hp (mt hplaying.mpr hstill)
  | sync hclock _ => exact standsInMedia_of_clock hclock hp.currentTime_le
  | setRate _ hclock _ => exact standsInMedia_of_clock hclock hp.currentTime_le
  | seek _ hclock _ =>
      exact standsInMedia_of_clock hclock fun d hd _ => MediaClock.clamp_le _ _ d hd
  | startOver _ _ hclock _ =>
      exact standsInMedia_of_clock hclock fun _ _ hnonneg => hnonneg
  | finish _ hduration hclock _ =>
      apply standsInMedia_of_clock hclock
      intro d hd _
      have heq := Option.some.inj (hduration.symm.trans hd)
      exact heq ▸ ExactTime.refl _
  | resize _ hfits hclock hstatus =>
      -- The clock is not started anew here: what stood still within the new bounds stays there.
      intro hstill d hd _
      rw [hclock] at hd ⊢
      have htime := hfits d hd
      rwa [currentTime_eq, if_neg (hstatus ▸ hstill)] at htime
  | cut _ _ hclock _ =>
      apply standsInMedia_of_clock hclock
      intro d hd _
      exact Option.some.inj hd ▸ ExactTime.refl _
  | reset _ hclock _ => exact standsInMedia_of_clock hclock (by simp)

/-- What every call keeps while rates are not negative. -/
structure IsAnchored (p : Pipeline ExactTime) (now : ℕ) : Prop where
  wall_le : p.clock.wall ≤ now
  rate_nonneg : 0 ≤ p.clock.rate
  media_le : p.status ≠ .playing → ∀ d ∈ p.clock.duration, 0 ≤ d → p.clock.media ≤ d

theorem IsAnchored.currentTime_le (hp : p.IsAnchored now) :
    ∀ d ∈ p.clock.duration, 0 ≤ d → p.currentTime now ≤ d :=
  StandsInMedia.currentTime_le hp.media_le

theorem IsAnchored.later (hp : p.IsAnchored now) : p.IsAnchored (now + n) :=
  { hp with wall_le := Nat.le_add_right_of_le hp.wall_le }

theorem Effect.isAnchored (heffect : Effect now p c q) (hp : p.IsAnchored now)
    (hforward : (PlaybackAction.call c).IsForward) : q.IsAnchored now := by
  have hmedia : q.StandsInMedia := heffect.standsInMedia hp.media_le
  cases heffect with
  | keep hclock _ _ => exact ⟨hclock ▸ hp.wall_le, hclock ▸ hp.rate_nonneg, hmedia⟩
  | resize _ _ hclock _ =>
      refine ⟨?_, ?_, hmedia⟩ <;> rw [hclock]
      · exact hp.wall_le
      · exact hp.rate_nonneg
  | setRate hcall hclock _ =>
      subst hcall
      refine ⟨?_, ?_, hmedia⟩ <;> rw [hclock]
      · exact Nat.le_refl now
      · exact hforward
  | sync hclock _ | seek _ hclock _ | startOver _ _ hclock _ | finish _ _ hclock _
  | cut _ _ hclock _ | reset _ hclock _ =>
      refine ⟨?_, ?_, hmedia⟩ <;> rw [hclock]
      · exact Nat.le_refl now
      · exact hp.rate_nonneg

/-- Starting, stopping and a new rate leave the media time where it is. -/
theorem Effect.of_isTransport (heffect : Effect now p c q)
    (hc : (PlaybackAction.call c).IsTransport) (hended : p.status ≠ .ended)
    (hfits : ∀ d ∈ p.clock.duration, p.currentTime now ≤ d) :
    q.currentTime now = p.currentTime now ∧ q.clock.duration = p.clock.duration ∧
      q.status ≠ .ended := by
  cases heffect with
  | keep hclock hplaying hkept =>
      refine ⟨?_, congrArg MediaClock.duration hclock, mt hkept hended⟩
      simp only [currentTime_eq, hclock, hplaying]
  | sync hclock hkept =>
      exact ⟨currentTime_of_clock hclock hfits, by rw [hclock]; rfl, mt hkept hended⟩
  | setRate _ hclock hstatus =>
      exact ⟨currentTime_of_clock hclock hfits, by rw [hclock]; rfl, hstatus ▸ hended⟩
  | startOver _ hplay _ _ => exact absurd hplay hended
  | seek hcall | finish hcall | resize hcall | cut hcall | reset hcall =>
      subst hcall
      exact hc.elim

end Pipeline

namespace PlaybackSystem

open ExactTime

variable {x : PlaybackSystem ExactTime} {a : PlaybackAction ExactTime}
  {as : List (PlaybackAction ExactTime)}

/-! ## What a run keeps -/

theorem isAnchored_new (now : ℕ) : (Pipeline.new now : Pipeline ExactTime).IsAnchored now :=
  ⟨Nat.le_refl now, show (0 : ExactTime) ≤ 1 by decide +kernel,
    by simp [Pipeline.clock, Pipeline.new]⟩

theorem isAnchored_act (hx : x.pipeline.IsAnchored x.now) (ha : a.IsForward) :
    (x.act a).pipeline.IsAnchored (x.act a).now := by
  cases a with
  | advance n => exact hx.later
  | call c => exact (Pipeline.effect_call x.pipeline x.now c).isAnchored hx ha

theorem isAnchored_actAll (hx : x.pipeline.IsAnchored x.now) (has : ∀ a ∈ as, a.IsForward) :
    (x.actAll as).pipeline.IsAnchored (x.actAll as).now := by
  induction as generalizing x with
  | nil => exact hx
  | cons a as ih =>
      obtain ⟨ha, has⟩ := List.forall_mem_cons.mp has
      exact ih (isAnchored_act hx ha) has

/-! ## Transport -/

/-- Playback that goes on from where it is: within the bounds of the media, and not at its end. -/
structure IsUnderWay (x : PlaybackSystem ExactTime) : Prop where
  anchored : x.pipeline.IsAnchored x.now
  not_ended : x.pipeline.status ≠ .ended
  time_le : ∀ d ∈ x.pipeline.clock.duration, x.time ≤ d

theorem IsUnderWay.time_advance (hx : x.IsUnderWay) (n : ℕ) :
    (x.act (.advance n)).time = x.pipeline.clock.clamp (x.time + x.played (.advance n)) := by
  have hfits := hx.time_le
  simp only [time, act, played, Pipeline.currentTime_eq] at *
  split_ifs at * with hplaying
  · exact MediaClock.running_add hx.anchored.wall_le hx.anchored.rate_nonneg
  · rw [ExactTime.add_zero, MediaClock.clamp_of_le hfits]

theorem IsUnderWay.act (hx : x.IsUnderWay) (ha : a.IsTransport) :
    (x.act a).IsUnderWay ∧
      (x.act a).pipeline.clock.duration = x.pipeline.clock.duration ∧
      (x.act a).time = x.pipeline.clock.clamp (x.time + x.played a) := by
  have hanchored := isAnchored_act hx.anchored ha.isForward
  cases a with
  | advance n =>
      have htime := hx.time_advance n
      refine ⟨⟨hanchored, hx.not_ended, ?_⟩, rfl, htime⟩
      rw [htime]
      exact MediaClock.clamp_le _ _
  | call c =>
      obtain ⟨htime, hduration, hended⟩ :=
        (Pipeline.effect_call x.pipeline x.now c).of_isTransport ha hx.not_ended hx.time_le
      have hstill : (x.act (.call c)).time = x.time := htime
      refine ⟨⟨hanchored, hended, ?_⟩, hduration, ?_⟩
      · rw [hstill]
        exact hduration ▸ hx.time_le
      · rw [played, ExactTime.add_zero, MediaClock.clamp_of_le hx.time_le, hstill]

theorem played_nonneg (hx : x.IsUnderWay) (a : PlaybackAction ExactTime) : 0 ≤ x.played a := by
  cases a with
  | advance n =>
      rw [played]
      split_ifs
      · exact ofNanos_mul_nonneg n hx.anchored.rate_nonneg
      · exact ExactTime.refl 0
  | call c => exact ExactTime.refl 0

theorem playedAll_nonneg (hx : x.IsUnderWay) (has : ∀ a ∈ as, a.IsTransport) :
    0 ≤ x.playedAll as := by
  induction as generalizing x with
  | nil => exact ExactTime.refl 0
  | cons a as ih =>
      obtain ⟨ha, has⟩ := List.forall_mem_cons.mp has
      exact ExactTime.add_nonneg (played_nonneg hx a) (ih (hx.act ha).1 has)

theorem IsUnderWay.actAll (hx : x.IsUnderWay) (has : ∀ a ∈ as, a.IsTransport) :
    (x.actAll as).pipeline.clock.duration = x.pipeline.clock.duration ∧
      (x.actAll as).time = x.pipeline.clock.clamp (x.time + x.playedAll as) := by
  induction as generalizing x with
  | nil =>
      refine ⟨rfl, ?_⟩
      rw [playedAll, ExactTime.add_zero, MediaClock.clamp_of_le hx.time_le]
      rfl
  | cons a as ih =>
      obtain ⟨ha, has⟩ := List.forall_mem_cons.mp has
      obtain ⟨hact, hduration, htime⟩ := hx.act ha
      obtain ⟨hdurationAll, htimeAll⟩ := ih hact has
      refine ⟨hdurationAll.trans hduration, htimeAll.trans ?_⟩
      -- The first step and the rest are clamped to the same duration, so clamping once is enough.
      have hclamp : (x.act a).pipeline.clock.clamp = x.pipeline.clock.clamp := by
        funext t
        rw [MediaClock.clamp, hduration, MediaClock.clamp]
      rw [hclamp, htime, MediaClock.clamp_clamp_add (playedAll_nonneg hact has),
        ExactTime.add_assoc, playedAll]

/-- From any state that the calls lead to, other than the end of the media, the media time is where
it was then and the time played since, up to the duration. A duration that is not negative is never
in front of the media time. -/
theorem time_eq_played {start : ℕ} {past moves : List (PlaybackAction ExactTime)}
    (hx : (new start).actAll past = x) (hpast : ∀ a ∈ past, a.IsForward)
    (hended : x.pipeline.status ≠ .ended)
    (hduration : ∀ d ∈ x.pipeline.duration, 0 ≤ d ∨ x.time ≤ d)
    (hmoves : ∀ a ∈ moves, a.IsTransport) :
    (x.actAll moves).pipeline.duration = x.pipeline.duration ∧
      (∀ d ∈ x.pipeline.duration,
        (x.actAll moves).time = MediaTime.earlier (x.time + x.playedAll moves) d) ∧
      (x.pipeline.duration = none → (x.actAll moves).time = x.time + x.playedAll moves) := by
  have hanchored : x.pipeline.IsAnchored x.now :=
    hx ▸ isAnchored_actAll (isAnchored_new start) hpast
  have hfits : ∀ d ∈ x.pipeline.clock.duration, x.time ≤ d := by
    intro d hd
    exact (hduration d hd).elim (hanchored.currentTime_le d hd) id
  obtain ⟨hkept, htime⟩ := IsUnderWay.actAll ⟨hanchored, hended, hfits⟩ hmoves
  refine ⟨hkept, ?_, ?_⟩
  · intro d hd
    rw [htime, MediaClock.clamp, Pipeline.clock, Option.mem_def.mp hd]
  · intro hnone
    rw [htime, MediaClock.clamp, Pipeline.clock, hnone]

def twoSecondsIn : PlaybackSystem ExactTime :=
  (new 0).actAll [.call (.setDuration (some (.finite 10))), .call .doneInitializing, .call .play,
    .call .canPlay, .advance 2000000000]

/-- Three seconds at double speed, a pause of five, and a second and a half more. -/
def pausedRun : List (PlaybackAction ExactTime) :=
  [.call (.setRate (.finite 2)), .advance 3000000000, .call .pause, .advance 5000000000,
    .call .play, .call .canPlay, .call .canPlay, .advance 1500000000]

theorem time_eq_played_pausedRun :
    (∀ d ∈ twoSecondsIn.pipeline.duration, (twoSecondsIn.actAll pausedRun).time =
      MediaTime.earlier (twoSecondsIn.time + twoSecondsIn.playedAll pausedRun) d) ∧
    twoSecondsIn.time + twoSecondsIn.playedAll pausedRun = .finite 11 ∧
    (twoSecondsIn.actAll pausedRun).time = .finite 10 := by
  refine ⟨?_, by decide +kernel, by decide +kernel⟩
  refine (time_eq_played (show (new 0).actAll _ = twoSecondsIn from rfl) ?_ ?_ ?_ ?_).2.1
  · simp [PlaybackAction.IsForward]
  · decide +kernel
  · decide +kernel
  · simp [pausedRun, PlaybackAction.IsTransport, zero_eq]

def startedOver : PlaybackSystem ExactTime :=
  (new 0).actAll [.call (.setDuration (some (.finite (-1)))), .call .reachedEnd, .call .play]

/-- Ended playback starts over at zero, even where that is past the end. -/
theorem startedOver_past_end :
    startedOver.pipeline.status = .seekingPlay ∧
      startedOver.pipeline.duration = some (.finite (-1)) ∧
      (startedOver.actAll []).time ≠
        MediaTime.earlier (startedOver.time + startedOver.playedAll []) (.finite (-1)) := by
  decide +kernel

end PlaybackSystem

end MediaPipeline
