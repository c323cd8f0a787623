import MediaPipeline.Script.Engine
import MediaPipeline.SyntheticMedia

/-!
# Simulated playback

Synthetic media played from start to end by all the workers of an engine. The clock moves on by
itself from one draw of the video to the next.
-/

namespace MediaPipeline.Script

structure SimulationOptions (T : Type) where
  duration : T
  segmentLength : T
  withVideo : Bool
  timeoutNanos : Nat

structure SimulationReport (T : Type) where
  state : PlaybackState
  time : T
  timedOut : Bool
  succeeded : Nat
  failed : Nat
  audioDecoded : Nat
  videoDecoded : Nat
  corrupted : Nat
  buffered : List (TimeRange T)

namespace SimulationOptions

variable {T : Type} [MediaTime T] [TimeWord T]

def setup (o : SimulationOptions T) (settings : PipelineSettings T) : EngineSetup T :=
  let track (stream : Stream) : TrackSetup :=
    { stream, demux := true, decode := true, fatal := true, silent := false, ring := none }
  { settings
    startNanos := 0
    runner := true
    tracks := track (SyntheticMedia.audioStream 0) ::
      if o.withVideo then [track (SyntheticMedia.videoStream 1)] else []
    monitor := true
    audio := some { device := .simulated, scriptedPlayer := false } }

def trackCommands (i : Nat) : List (EngineCommand T) :=
  [.setDemuxer i true, .setDecoder i (some ⟨0, [], [], []⟩), .attach i]

def startCommands (o : SimulationOptions T) : List (EngineCommand T) :=
  trackCommands 0 ++ (if o.withVideo then trackCommands 1 else []) ++
    [.followAudio true, .attachAudio 0] ++
    (if o.withVideo then [.followVideo true, .attachVideo 1] else []) ++
    [.call (.setDuration (some o.duration)), .call .doneInitializing, .startMonitor, .call .play]

def appendCommands (o : SimulationOptions T) : List (EngineCommand T) :=
  let append (track : Nat) (frames : List (SegmentFrame T)) : EngineCommand T :=
    .append track ⟨Segment.ofFrames frames, 0, ⟨0, MediaTime.posInf⟩⟩
  (SyntheticMedia.slices o.duration o.segmentLength).flatMap fun (start, stop) =>
    append 0 (SyntheticMedia.audioFrames start stop) ::
      if o.withVideo then [append 1 (SyntheticMedia.videoFrames start stop)] else []

end SimulationOptions

namespace EngineStage

variable {T : Type} [MediaTime T] [TimeWord T]

/-- Executes commands of which nothing is heard. -/
def perform (s : EngineStage T) (commands : List (EngineCommand T)) : EngineStage T :=
  commands.foldl (fun s c => { (s.execute c).2 with log := [] }) s

/-- Time passes also in the shortest sleep, so that no worker keeps the others from their turns. -/
def leastSleep : Nat := 1000000

/-- Draws until playback is over, and tells whether it took too long. The clock moves on by the
delay that a draw asks for. -/
def playOut (timeoutNanos : Nat) : Nat → EngineStage T → Bool × EngineStage T
  | 0, s => (true, s)
  | draws + 1, s =>
    if s.pipeline.status = .ended ∨ s.pipeline.status = .errored then (false, s)
    else if timeoutNanos < s.clock then (true, s)
    else
      match s.draw with
      | (.drawn _ delay _, s) =>
        let s := (s.run leastSleep ((MediaTime.toNanos? delay).getD 0)).2
        playOut timeoutNanos draws { s with log := [] }
      | (_, s) => (true, s)

/-- Draws are never less than this apart. -/
def leastDrawDelay : Nat := 8000000

def simulationReport (s : EngineStage T) (timedOut : Bool) : SimulationReport T where
  state := s.pipeline.status
  time := s.pipeline.currentTime s.clock
  timedOut
  succeeded := s.outcomes.countP (·.success)
  failed := s.outcomes.countP (!·.success)
  audioDecoded := (s.tracks[0]?.map Track.decodedCount).getD 0
  videoDecoded := (s.tracks[1]?.map Track.decodedCount).getD 0
  corrupted := s.video.renderer.quality.corrupted
  buffered := TimeRange.intersection (s.store.encoded.map FrameBuffer.ranges)

end EngineStage

def simulate {T : Type} [MediaTime T] [TimeWord T] (settings : PipelineSettings T)
    (o : SimulationOptions T) : SimulationReport T :=
  let start := (EngineStage.new (o.setup settings)).settled
  let started := start.perform (o.startCommands ++ o.appendCommands)
  let (timedOut, s) :=
    started.playOut o.timeoutNanos (o.timeoutNanos / EngineStage.leastDrawDelay + 2)
  s.simulationReport timedOut

end MediaPipeline.Script
