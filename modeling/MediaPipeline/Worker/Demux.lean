import MediaPipeline.Config.Settings
import MediaPipeline.FrameBuffer.Basic
import MediaPipeline.Segment
import MediaPipeline.Worker.Rest

/-!
# Demuxing

A demux worker takes segments off a queue, splits them into frames and adds to its output the frames
that lie in the segment's append window. After a dropped frame the output goes on only from the next
key frame. Every segment is answered for once, by its ticket.

The worker's loop is cut into steps; other threads may act between any two of them.
-/

namespace MediaPipeline

class Demuxer (X : Type) (T : outParam Type) where
  /-- Splits one segment; the offset is added to every timestamp. -/
  demux : X → (offset : T) → Bytes → Except MediaError (List (EncodedFrame T)) × X
  reset : X → X

/-- The demuxer of one stream's segments. It keeps nothing from one to the next. -/
structure SegmentDemuxer (T : Type) where
  stream : Stream
  deriving DecidableEq, Repr

instance {T : Type} [MediaTime T] [TimeWord T] : Demuxer (SegmentDemuxer T) T where
  demux d offset data := (Segment.demux d.stream offset data, d)
  reset d := d

/-! ## Append windows -/

structure AppendWindow (T : Type) where
  start : T
  stop : T
  deriving DecidableEq, Repr

namespace AppendWindow

variable {F T : Type} [Frame F T] [MediaTime T]

/-- The frame begins before the window or ends after it. -/
def excludes (w : AppendWindow T) (f : F) : Bool :=
  decide (Frame.pts f < w.start) || decide (w.stop < Frame.presentationEnd f)

/-- The frames that may be added, and whether the next one has to be a key frame. A frame outside
the window is dropped and asks for a key frame; until one comes, all others are dropped. -/
def select (w : AppendWindow T) : Bool → List F → List F × Bool
  | needKey, [] => ([], needKey)
  | needKey, f :: fs =>
    if w.excludes f then w.select true fs
    else if needKey && !Frame.isKeyFrame f then w.select true fs
    else
      let (kept, needKey) := w.select false fs
      (f :: kept, needKey)

end AppendWindow

/-! ## The worker -/

structure Append (A T : Type) where
  data : Bytes
  offset : T
  window : AppendWindow T
  ticket : A
  deriving DecidableEq, Repr

/-- What a worker makes known: the outcome of an append, or the error that stops it. -/
inductive DemuxEvent (A : Type) where
  | done (ticket : A) (success : Bool)
  | failed (error : MediaError)
  deriving DecidableEq, Repr

inductive DemuxPhase (A T : Type) where
  | checking
  | timing
  | measuring (time : T)
  /-- About to take the lock, knowing how much was ahead. -/
  | locking (ahead : T)
  | parked
  /-- Out of the lock, with outcomes to report and perhaps an error after them. -/
  | reporting (outcomes : List (A × Bool)) (error : Option MediaError)
  | sleeping (nanos : Nat)
  | exited
  deriving DecidableEq, Repr

structure DemuxWorker (X A T : Type) where
  demuxer : Option X
  queue : List (Append A T)
  needKeyFrame : Bool
  /-- The signal that wakes the worker when it is parked. -/
  signalled : Bool
  shutdown : Bool
  phase : DemuxPhase A T
  deriving DecidableEq, Repr

namespace DemuxWorker

variable {X A T : Type}

def new : DemuxWorker X A T where
  demuxer := none
  queue := []
  needKeyFrame := true
  signalled := false
  shutdown := false
  phase := .checking

def rest (w : DemuxWorker X A T) : Rest :=
  match w.phase with
  | .parked => if w.signalled then .running else .parked
  | .sleeping nanos => .sleeping nanos
  | .exited => .exited
  | _ => .running

def wake (w : DemuxWorker X A T) : DemuxWorker X A T :=
  match w.phase with
  | .sleeping _ => { w with phase := .checking }
  | _ => w

variable [MediaTime T] [Demuxer X T]

/-- Splits the segment that has been taken off the queue and adds its frames, under the lock. An
error answers for all that is queued. -/
def process (w : DemuxWorker X A T) (a : Append A T) (output : EncodedBuffer T) :
    DemuxWorker X A T × EncodedBuffer T :=
  match w.demuxer with
  | none => ({ w with phase := .reporting [(a.ticket, false)] none }, output)
  | some x =>
    match Demuxer.demux x a.offset a.data with
    | (.ok frames, x) =>
      let (kept, needKeyFrame) := a.window.select w.needKeyFrame frames
      ({ w with demuxer := some x, needKeyFrame, phase := .reporting [(a.ticket, true)] none },
        output.addAll kept)
    | (.error e, x) =>
      let outcomes := (a.ticket, false) :: w.queue.map fun b => (b.ticket, false)
      ({ w with demuxer := some x, queue := [], phase := .reporting outcomes (some e) }, output)

def underLock (settings : PipelineSettings T) (w : DemuxWorker X A T) (ahead : T)
    (output : EncodedBuffer T) : DemuxWorker X A T × EncodedBuffer T :=
  if w.shutdown then ({ w with phase := .exited }, output)
  else
    match w.queue with
    | [] => ({ w with signalled := false, phase := .parked }, output)
    | a :: queue =>
      if settings.demuxBufferAhead < ahead then
        ({ w with phase := .sleeping settings.noDataBackoff }, output)
      else process { w with queue } a output

/-- One step of the loop. `time` is the media time at this moment. -/
def step (settings : PipelineSettings T) (time : T) (w : DemuxWorker X A T)
    (output : EncodedBuffer T) : DemuxWorker X A T × EncodedBuffer T × List (DemuxEvent A) :=
  match w.phase with
  | .checking => ({ w with phase := if w.shutdown then .exited else .timing }, output, [])
  | .timing => ({ w with phase := .measuring time }, output, [])
  | .measuring time =>
    ({ w with phase := .locking (TimeRange.bufferedAhead output.ranges time) }, output, [])
  | .locking ahead =>
    let (w, output) := underLock settings w ahead output
    (w, output, [])
  | .parked =>
    if w.signalled then ({ w with phase := .checking }, output, []) else (w, output, [])
  | .reporting ((ticket, success) :: outcomes) error =>
    ({ w with phase := .reporting outcomes error }, output, [.done ticket success])
  | .reporting [] (some error) => ({ w with phase := .exited }, output, [.failed error])
  | .reporting [] none => ({ w with phase := .checking }, output, [])
  | .sleeping _ | .exited => (w, output, [])

/-! ## Acting on the worker -/

def cancelQueue (w : DemuxWorker X A T) : DemuxWorker X A T × List (DemuxEvent A) :=
  ({ w with queue := [] }, w.queue.map fun a => .done a.ticket false)

def setDemuxer (w : DemuxWorker X A T) (demuxer : Option X) : DemuxWorker X A T :=
  { w with demuxer, needKeyFrame := true }

/-- Queues a segment. Without a demuxer, or after a stop, it has failed at once. -/
def append (w : DemuxWorker X A T) (a : Append A T) : DemuxWorker X A T × List (DemuxEvent A) :=
  if w.demuxer.isNone || w.shutdown then (w, [.done a.ticket false])
  else ({ w with queue := w.queue ++ [a], signalled := true }, [])

/-- Drops what is queued; the next frame must be a key frame. -/
def reset (w : DemuxWorker X A T) : DemuxWorker X A T × List (DemuxEvent A) :=
  cancelQueue { w with demuxer := w.demuxer.map Demuxer.reset, needKeyFrame := true }

/-- Tells the loop to end. Once it has, the queue is to be cancelled. -/
def requestStop (w : DemuxWorker X A T) : DemuxWorker X A T :=
  { w with shutdown := true, signalled := true }

end DemuxWorker

end MediaPipeline
