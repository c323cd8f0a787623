/-!
# Playback and ready states
-/

namespace MediaPipeline

inductive PlaybackState where
  /-- Waiting for initialization data. -/
  | initializing
  | paused
  | playing
  /-- A seek is under way, after which playback stays paused. -/
  | seekingPause
  /-- A seek is under way, after which playback goes on. -/
  | seekingPlay
  /-- Meant to play, and waiting for data. -/
  | stalled
  /-- At the end, waiting for a seek or for play. -/
  | ended
  | errored
  deriving DecidableEq, Repr

namespace PlaybackState

def all : List PlaybackState :=
  [initializing, paused, playing, seekingPause, seekingPlay, stalled, ended, errored]

def isSeeking : PlaybackState → Bool
  | seekingPause | seekingPlay => true
  | _ => false

def name : PlaybackState → String
  | initializing => "Initializing"
  | paused => "Paused"
  | playing => "Playing"
  | seekingPause => "SeekingPause"
  | seekingPlay => "SeekingPlay"
  | stalled => "Stalled"
  | ended => "Ended"
  | errored => "Errored"

end PlaybackState

/-- How much data there is around the playhead, from nothing upwards. -/
inductive ReadyState where
  | nothing | metadata | currentData | futureData | enoughData
  deriving DecidableEq, Repr

namespace ReadyState

def name : ReadyState → String
  | nothing => "HaveNothing"
  | metadata => "HaveMetadata"
  | currentData => "HaveCurrentData"
  | futureData => "HaveFutureData"
  | enoughData => "HaveEnoughData"

end ReadyState

end MediaPipeline
