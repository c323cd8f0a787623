import MediaPipeline.Proofs.Playback.Bounds

/-!
# The intent to play

Whether a pipeline is meant to play is not stored as such: it is in the state that the pipeline is
in, and before initialization in a flag. A call to play sets it; pauses, resets and the end of the
media take it back. All other calls move among states that mean the same, so the last of these few
calls tells what the pipeline is meant to do.
-/

namespace MediaPipeline

namespace Pipeline

section Intent

variable {T : Type}

/-- The pipeline plays, or will as soon as it can. -/
def intendsPlay (p : Pipeline T) : Bool :=
  match p.status with
  | .playing | .stalled | .seekingPlay => true
  | .initializing => p.autoplay
  | .paused | .seekingPause | .ended | .errored => false

variable [MediaTime T]

/-- The call settles whether the pipeline is meant to play. The end of the media does so unless the
call is ignored. -/
def isDecision (p : Pipeline T) (now : Nat) : PipelineCall T → Bool
  | .play | .pause | .reset => true
  | .reachedEnd => (p.reachedEnd now).1.status != p.status
  | _ => false

/-- The calls of a run that settle it, each in the state that it is made in. -/
def decisions (p : Pipeline T) : List (Nat × PipelineCall T) → List (PipelineCall T)
  | [] => []
  | (now, c) :: cs =>
    if p.isDecision now c then c :: (p.call now c).1.decisions cs
    else (p.call now c).1.decisions cs

end Intent

end Pipeline

namespace PipelineCall

/-- A call that is about where and how fast to play, or about the data for it. -/
def IsNeutral {T : Type} : PipelineCall T → Prop
  | doneInitializing | setDuration _ | seek _ | setRate _ | bufferingStarted | canPlay => True
  | play | pause | reachedEnd | fail | reset => False

end PipelineCall

namespace Pipeline

variable {T : Type} {p : Pipeline T} {now : Nat} {c : PipelineCall T}

/-! ## One call -/

@[simp] theorem enter_autoplay (p : Pipeline T) (new : PlaybackState) :
    (p.enter new).1.autoplay = p.autoplay := by
  unfold enter
  split_ifs <;> rfl

/-- The end of the media is reached, or the call is ignored. -/
theorem reachedEnd_eq_or (p : Pipeline T) (now : Nat) :
    (p.reachedEnd now).1.status = .ended ∨ (p.reachedEnd now).1 = p := by
  unfold reachedEnd
  split
  · exact .inr rfl
  · exact .inr rfl
  · exact .inr rfl
  · exact .inl (enter_status _ _)

variable [MediaTime T]

theorem intendsPlay_setDuration (p : Pipeline T) (now : Nat) (duration : Option T) :
    (p.setDuration now duration).1.intendsPlay = p.intendsPlay := by
  unfold setDuration
  split_ifs
  · rfl
  · cases duration with
    | none => rfl
    | some d =>
        by_cases hfits : p.currentTime now ≤ d
        · simp only [hfits, if_true]
          rfl
        · simp only [hfits, if_false, moveTo_status]
          cases hstatus : p.status <;> simp [intendsPlay, moveTo, hstatus]

theorem intendsPlay_seek (p : Pipeline T) (now : Nat) (time : T) :
    (p.seek now time).1.intendsPlay = p.intendsPlay := by
  unfold seek
  cases hstatus : p.status <;> simp [intendsPlay, hstatus]

theorem intendsPlay_canPlay (p : Pipeline T) (now : Nat) :
    (p.canPlay now).1.intendsPlay = p.intendsPlay := by
  unfold canPlay
  cases hstatus : p.status <;> simp [intendsPlay, sync, hstatus]

theorem intendsPlay_call_of_isNeutral (hc : c.IsNeutral) (p : Pipeline T) (now : Nat) :
    (p.call now c).1.intendsPlay = p.intendsPlay := by
  cases c with
  | doneInitializing =>
      simp only [call, doneInitializing]
      split_ifs with hstatus hautoplay
      · simp [intendsPlay, hstatus, hautoplay]
      · simp [intendsPlay, hstatus, hautoplay]
      · rfl
  | setDuration duration => exact intendsPlay_setDuration p now duration
  | seek time => exact intendsPlay_seek p now time
  | setRate rate =>
      simp only [call, setRate]
      split_ifs <;> rfl
  | bufferingStarted =>
      simp only [call, bufferingStarted]
      split_ifs with hstatus
      · simp [intendsPlay, hstatus]
      · rfl
  | canPlay => exact intendsPlay_canPlay p now
  | play | pause | reachedEnd | fail | reset => exact hc.elim

theorem intendsPlay_play (h : p.status ≠ .errored) : (p.play now).1.intendsPlay = true := by
  unfold play
  cases hstatus : p.status <;> simp_all [intendsPlay, sync]

theorem intendsPlay_pause (p : Pipeline T) (now : Nat) :
    (p.pause now).1.intendsPlay = false := by
  unfold pause
  cases hstatus : p.status <;> simp [intendsPlay, sync, hstatus]

theorem intendsPlay_reset (p : Pipeline T) (now : Nat) :
    (p.reset now).1.intendsPlay = false := by
  unfold reset
  split_ifs with herror <;> simp [intendsPlay, herror]

theorem intendsPlay_call (hok : (p.call now c).1.status ≠ .errored) :
    (p.call now c).1.intendsPlay = true ↔
      if p.isDecision now c then c = .play else p.intendsPlay = true := by
  have hp : p.status ≠ .errored := fun h => hok (by rwa [call_of_errored h])
  cases c with
  | play => simp [isDecision, call, intendsPlay_play hp]
  | pause => simp [isDecision, call, intendsPlay_pause]
  | reset => simp [isDecision, call, intendsPlay_reset]
  | reachedEnd =>
      rcases reachedEnd_eq_or p now with hended | hsame
      · have hafter : (p.reachedEnd now).1.intendsPlay = false := by simp [intendsPlay, hended]
        by_cases hbefore : p.status = .ended
        · have hsame : p.intendsPlay = false := by simp [intendsPlay, hbefore]
          simp [call, hafter, hsame]
        · simp [isDecision, call, hafter, hended, Ne.symm hbefore]
      · simp [isDecision, call, hsame]
  | fail =>
      have herror : (p.fail now).1.status = .errored := by simp [Pipeline.fail, hp]
      exact absurd herror hok
  | doneInitializing | setDuration | seek | setRate | bufferingStarted | canPlay =>
      rw [intendsPlay_call_of_isNeutral (by trivial)]
      simp [isDecision]

/-! ## Runs -/

theorem intendsPlay_callAll {cs : List (Nat × PipelineCall T)}
    (hok : (p.callAll cs).status ≠ .errored) :
    (p.callAll cs).intendsPlay = true ↔
      (p.decisions cs).getLast?.elim (p.intendsPlay = true) (· = .play) := by
  induction cs generalizing p with
  | nil => rfl
  | cons c cs ih =>
      obtain ⟨now, c⟩ := c
      have hcall : (p.call now c).1.status ≠ .errored := by
        intro h
        have hrest : (p.call now c).1.callAll cs = (p.call now c).1 := callAll_of_errored h cs
        exact hok ((congrArg status hrest).trans h)
      have hrest := ih hok
      rw [intendsPlay_call hcall] at hrest
      refine hrest.trans ?_
      rw [decisions]
      split_ifs
      · rw [List.getLast?_cons]
        cases ((p.call now c).1.decisions cs).getLast? <;> rfl
      · rfl

/-- After any calls at any readings of the wall clock that have not led to an error, the pipeline
is meant to play exactly if the last of the calls that settle this was one to play; calls about
positions, durations, rates and data do not change it. -/
theorem intendsPlay_iff_last_decision {start : Nat} {cs : List (Nat × PipelineCall T)}
    (hok : ((new start).callAll cs).status ≠ .errored) :
    (((new start).callAll cs).intendsPlay = true ↔
        ((new start).decisions cs).getLast? = some .play) ∧
      ∀ now (c : PipelineCall T), c.IsNeutral →
        (((new start).callAll cs).call now c).1.intendsPlay =
          ((new start).callAll cs).intendsPlay := by
  refine ⟨?_, fun now c hc => intendsPlay_call_of_isNeutral hc _ now⟩
  have hnew : (new start : Pipeline T).intendsPlay = false := rfl
  rw [intendsPlay_callAll hok, hnew]
  cases ((new start : Pipeline T).decisions cs).getLast? <;> simp

open ExactTime in
/-- Played from the start, paused and moved, played to the end, moved and played again. -/
def playedAgain : List (ℕ × PipelineCall ExactTime) :=
  [(0, .play), (0, .setDuration (some (.finite 8))), (0, .doneInitializing), (0, .canPlay),
    (1000000000, .pause), (1000000000, .seek (.finite 7)), (1000000000, .play),
    (2000000000, .canPlay), (3000000000, .reachedEnd), (3000000000, .reachedEnd),
    (4000000000, .seek (.finite 5)), (4000000000, .canPlay), (5000000000, .play),
    (5000000000, .setDuration (some (.finite 4)))]

theorem intendsPlay_iff_last_decision_playedAgain :
    let p := (new 0).callAll playedAgain
    p.status ≠ .errored ∧
      (new 0).decisions playedAgain = [.play, .pause, .play, .reachedEnd, .play] ∧
      p.status = .seekingPlay ∧ p.intendsPlay = true ∧
      ∀ now t, (p.call now (.seek t)).1.intendsPlay = true := by
  intro p
  have hok : p.status ≠ .errored := by decide +kernel
  have hdecisions :
      (new 0).decisions playedAgain = [.play, .pause, .play, .reachedEnd, .play] := by
    decide +kernel
  obtain ⟨hlast, hneutral⟩ := intendsPlay_iff_last_decision hok
  have hplay : p.intendsPlay = true := hlast.mpr (by rw [hdecisions]; rfl)
  exact ⟨hok, hdecisions, by decide +kernel, hplay,
    fun now t => (hneutral now (.seek t) trivial).trans hplay⟩

end Pipeline

end MediaPipeline
