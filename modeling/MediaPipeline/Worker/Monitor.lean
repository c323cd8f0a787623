import MediaPipeline.Config.Settings
import MediaPipeline.Pipeline.Basic
import MediaPipeline.TimeRange
import MediaPipeline.Worker.Rest

/-!
# Monitoring the buffers

The monitor polls what is buffered around the playhead. It ends playback at the end of the media,
lets it play when there is data and stalls it when there is not, and it reports the ready state
whenever that changes.

A poll reads the time, the duration and the state of the pipeline one after another, then makes at
most one call. Other threads may act between any two of these steps.
-/

namespace MediaPipeline

structure PollReading (T : Type) where
  buffered : List (TimeRange T)
  decoded : List (TimeRange T)
  time : T
  duration : Option T
  deriving DecidableEq, Repr

namespace PollReading

variable {T : Type} [MediaTime T]

/-- Compressed media reaches `ahead` from the playhead. -/
def reaches (settings : PipelineSettings T) (r : PollReading T) (ahead : T) : Bool :=
  TimeRange.isBufferedUntil r.buffered r.time (r.time + ahead) r.duration settings.endDelta

def playable (settings : PipelineSettings T) (r : PollReading T) : Bool :=
  r.reaches settings settings.needForPlay

def currentDecoded (settings : PipelineSettings T) (r : PollReading T) : Bool :=
  TimeRange.isBufferedUntil r.decoded r.time r.time r.duration settings.endDelta

def atEnd (r : PollReading T) : Bool :=
  match r.duration with
  | some d => decide (d ≤ r.time)
  | none => false

/-- The call that a poll makes in a pipeline state. -/
def verdict (settings : PipelineSettings T) (r : PollReading T) (state : PlaybackState) :
    Option (PipelineCall T) :=
  if state = .initializing then none
  else if r.atEnd then some .reachedEnd
  else if r.playable settings && r.currentDecoded settings then some .canPlay
  else some .bufferingStarted

def ready (settings : PipelineSettings T) (r : PollReading T) (state : PlaybackState) :
    ReadyState :=
  if state = .initializing then .nothing
  else if r.reaches settings settings.needForEnough then .enoughData
  else if r.playable settings then .futureData
  else if TimeRange.isBufferedUntil r.buffered r.time r.time r.duration settings.endDelta then
    .currentData
  else .metadata

end PollReading

/-- What the monitor does to the pipeline and makes known. -/
inductive MonitorEvent (T : Type) where
  | call (call : PipelineCall T)
  | ready (state : ReadyState)
  deriving DecidableEq, Repr

inductive MonitorPhase (T : Type) where
  | checking
  /-- Waiting to be started or shut down. -/
  | waiting
  | readingBuffered
  | readingDecoded (buffered : List (TimeRange T))
  | readingTime (buffered decoded : List (TimeRange T))
  | readingDuration (buffered decoded : List (TimeRange T)) (time : T)
  /-- About to read the pipeline state and decide on a call. -/
  | deciding (reading : PollReading T)
  | calling (reading : PollReading T) (call : PipelineCall T)
  /-- About to read the pipeline state again, for the ready state. -/
  | classifying (reading : PollReading T)
  | sleeping (nanos : Nat)
  | exited
  deriving DecidableEq, Repr

structure Monitor (T : Type) where
  running : Bool
  shutdown : Bool
  /-- The loop is known to wait, or to be over. -/
  parked : Bool
  ready : ReadyState
  phase : MonitorPhase T
  deriving DecidableEq, Repr

structure MonitorView (T : Type) where
  buffered : List (TimeRange T)
  decoded : List (TimeRange T)
  time : T
  duration : Option T
  state : PlaybackState

namespace Monitor

variable {T : Type}

def new : Monitor T where
  running := false
  shutdown := false
  parked := false
  ready := .nothing
  phase := .checking

def rest (m : Monitor T) : Rest :=
  match m.phase with
  | .waiting => if m.running || m.shutdown then .running else .parked
  | .sleeping nanos => .sleeping nanos
  | .exited => .exited
  | _ => .running

def wake (m : Monitor T) : Monitor T :=
  match m.phase with
  | .sleeping _ => { m with phase := .checking }
  | _ => m

variable [MediaTime T]

/-- Looks at the control: waits until it is started, ends when it is shut down. -/
def check (m : Monitor T) : Monitor T :=
  if m.shutdown then { m with parked := true, phase := .exited }
  else if m.running then { m with parked := false, phase := .readingBuffered }
  else { m with parked := true, phase := .waiting }

/-- One step of the loop. The view is that of this moment. -/
def step (settings : PipelineSettings T) (v : MonitorView T) (m : Monitor T) :
    Monitor T × List (MonitorEvent T) :=
  match m.phase with
  | .checking => (m.check, [])
  | .waiting => (m.check, [])
  | .readingBuffered => ({ m with phase := .readingDecoded v.buffered }, [])
  | .readingDecoded buffered => ({ m with phase := .readingTime buffered v.decoded }, [])
  | .readingTime buffered decoded =>
    ({ m with phase := .readingDuration buffered decoded v.time }, [])
  | .readingDuration buffered decoded time =>
    ({ m with phase := .deciding ⟨buffered, decoded, time, v.duration⟩ }, [])
  | .deciding r =>
    match r.verdict settings v.state with
    | some call => ({ m with phase := .calling r call }, [])
    | none => ({ m with phase := .classifying r }, [])
  | .calling r call => ({ m with phase := .classifying r }, [.call call])
  | .classifying r =>
    let ready := r.ready settings v.state
    let m := { m with phase := .sleeping settings.monitorPoll }
    if m.ready = ready then (m, []) else ({ m with ready }, [.ready ready])
  | .sleeping _ | .exited => (m, [])

/-! ## Acting on the monitor -/

def start (m : Monitor T) : Monitor T := if m.shutdown then m else { m with running := true }

/-- Asks the loop to wait. The caller waits until `stopDone`. -/
def requestStop (m : Monitor T) : Monitor T := { m with running := false }

def stopDone (m : Monitor T) : Bool := m.parked || m.shutdown

def requestShutdown (m : Monitor T) : Monitor T := { m with shutdown := true }

end Monitor

end MediaPipeline
