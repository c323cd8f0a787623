import MediaPipeline.MediaTime
import MediaPipeline.Pipeline.State

/-!
# The playback pipeline

The pipeline derives the media time from a sync point: a wall time together with the media time at
that moment. While it plays the media time moves on from there at the playback rate, otherwise it
stands still. Every call returns the new pipeline and the notices that it raises, in order; once the
pipeline is in error no call has any effect.
-/

namespace MediaPipeline

structure Pipeline (T : Type) where
  status : PlaybackState
  syncMedia : T
  syncWall : Nat
  rate : T
  duration : Option T
  /-- Start playing as soon as initialization is done. -/
  autoplay : Bool
  deriving DecidableEq, Repr

inductive Notice (T : Type) where
  | seeking
  | stateChanged (old new : PlaybackState)
  | rateChanged (old new : T)
  deriving DecidableEq, Repr

/-- What a renderer sees of the player that it follows. -/
structure PlayerView (T : Type) where
  time : T
  rate : T
  state : PlaybackState
  deriving DecidableEq, Repr

namespace PlayerView

variable {T : Type} [MediaTime T]

/-- Sound is played at the normal rate only. -/
def isAudible (v : PlayerView T) : Bool := v.rate == 1 && v.state == .playing

end PlayerView

namespace Pipeline

variable {T : Type} [MediaTime T]

def new (now : Nat) : Pipeline T where
  status := .initializing
  syncMedia := 0
  syncWall := now
  rate := 1
  duration := none
  autoplay := false

/-! ## Media time -/

def clampToDuration (p : Pipeline T) (time : T) : T :=
  match p.duration with
  | some d => MediaTime.earlier time d
  | none => time

/-- The media time at a wall time. A wall clock that went back counts as one that stood still. -/
def currentTime (p : Pipeline T) (now : Nat) : T :=
  if p.status = .playing then
    p.clampToDuration (p.syncMedia + MediaTime.ofNanos (now - p.syncWall) * p.rate)
  else p.syncMedia

/-- Starts the media time anew from where it is. -/
def sync (p : Pipeline T) (now : Nat) : Pipeline T :=
  { p with syncMedia := p.currentTime now, syncWall := now }

def moveTo (p : Pipeline T) (now : Nat) (time : T) : Pipeline T :=
  { p with syncMedia := time, syncWall := now }

/-- What those who follow the pipeline see of it. -/
def view (p : Pipeline T) (now : Nat) : PlayerView T := ⟨p.currentTime now, p.rate, p.status⟩

/-! ## State changes -/

/-- Goes to a state; only a change is made known. -/
def enter (p : Pipeline T) (new : PlaybackState) : Pipeline T × List (Notice T) :=
  if p.status = new then (p, [])
  else ({ p with status := new }, [.stateChanged p.status new])

/-- Goes to a state as part of a seek, which is made known first. -/
def enterSeeking (p : Pipeline T) (new : PlaybackState) : Pipeline T × List (Notice T) :=
  let (p, notices) := p.enter new
  (p, .seeking :: notices)

/-! ## Calls -/

def doneInitializing (p : Pipeline T) : Pipeline T × List (Notice T) :=
  if p.status = .initializing then p.enter (if p.autoplay then .stalled else .paused)
  else (p, [])

/-- A duration in front of the media time makes the pipeline seek to it. -/
def setDuration (p : Pipeline T) (now : Nat) (duration : Option T) :
    Pipeline T × List (Notice T) :=
  if p.status = .errored then (p, [])
  else
    let time := p.currentTime now
    let p := { p with duration }
    match duration with
    | none => (p, [])
    | some d =>
      if time ≤ d then (p, [])
      else
        let p := p.moveTo now d
        match p.status with
        | .playing | .stalled => p.enterSeeking .seekingPlay
        | .paused | .ended => p.enterSeeking .seekingPause
        | _ => (p, [.seeking])

/-- Seeks to `time`, brought into the bounds of the media. -/
def seek (p : Pipeline T) (now : Nat) (time : T) : Pipeline T × List (Notice T) :=
  let moved := p.moveTo now (p.clampToDuration (MediaTime.later time 0))
  match p.status with
  | .initializing | .errored => (p, [])
  | .playing | .stalled | .seekingPlay => moved.enterSeeking .seekingPlay
  | .paused | .ended | .seekingPause => moved.enterSeeking .seekingPause

/-- The time up to now keeps the old rate. -/
def setRate (p : Pipeline T) (now : Nat) (rate : T) : Pipeline T × List (Notice T) :=
  if p.status = .errored ∨ p.rate == rate then (p, [])
  else ({ p.sync now with rate }, [.rateChanged p.rate rate])

/-- Paused playback waits for data first; ended playback starts over. -/
def play (p : Pipeline T) (now : Nat) : Pipeline T × List (Notice T) :=
  match p.status with
  | .errored => (p, [])
  | .paused => (p.sync now).enter .stalled
  | .ended => (p.moveTo now 0).enterSeeking .seekingPlay
  | .seekingPause => (p.sync now).enter .seekingPlay
  | .initializing => ({ p.sync now with autoplay := true }, [])
  | .playing | .seekingPlay | .stalled => (p.sync now, [])

def pause (p : Pipeline T) (now : Nat) : Pipeline T × List (Notice T) :=
  match p.status with
  | .errored => (p, [])
  | .playing | .stalled => (p.sync now).enter .paused
  | .seekingPlay => (p.sync now).enter .seekingPause
  | .initializing => ({ p.sync now with autoplay := false }, [])
  | .paused | .seekingPause | .ended => (p.sync now, [])

def bufferingStarted (p : Pipeline T) (now : Nat) : Pipeline T × List (Notice T) :=
  if p.status = .playing then (p.sync now).enter .stalled else (p, [])

def canPlay (p : Pipeline T) (now : Nat) : Pipeline T × List (Notice T) :=
  match p.status with
  | .errored => (p, [])
  | .stalled | .seekingPlay => (p.sync now).enter .playing
  | .seekingPause => (p.sync now).enter .paused
  | .initializing | .paused | .playing | .ended => (p.sync now, [])

def reachedEnd (p : Pipeline T) (now : Nat) : Pipeline T × List (Notice T) :=
  match p.status, p.duration with
  | .ended, _ | .errored, _ | _, none => (p, [])
  | _, some d => (p.moveTo now d).enter .ended

def fail (p : Pipeline T) (now : Nat) : Pipeline T × List (Notice T) :=
  if p.status = .errored then (p, []) else (p.sync now).enter .errored

/-- Makes ready for other media. Only the rate is kept. -/
def reset (p : Pipeline T) (now : Nat) : Pipeline T × List (Notice T) :=
  if p.status = .errored then (p, [])
  else { p.moveTo now 0 with duration := none, autoplay := false }.enter .initializing

end Pipeline

inductive PipelineCall (T : Type) where
  | doneInitializing
  | setDuration (duration : Option T)
  | seek (time : T)
  | setRate (rate : T)
  | play
  | pause
  | bufferingStarted
  | canPlay
  | reachedEnd
  | fail
  | reset
  deriving DecidableEq, Repr

namespace Pipeline

variable {T : Type} [MediaTime T]

def call (p : Pipeline T) (now : Nat) : PipelineCall T → Pipeline T × List (Notice T)
  | .doneInitializing => p.doneInitializing
  | .setDuration d => p.setDuration now d
  | .seek t => p.seek now t
  | .setRate r => p.setRate now r
  | .play => p.play now
  | .pause => p.pause now
  | .bufferingStarted => p.bufferingStarted now
  | .canPlay => p.canPlay now
  | .reachedEnd => p.reachedEnd now
  | .fail => p.fail now
  | .reset => p.reset now

end Pipeline

end MediaPipeline
