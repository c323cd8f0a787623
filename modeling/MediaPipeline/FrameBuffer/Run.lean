import MediaPipeline.Frame
import MediaPipeline.TimeRange

/-!
# Runs of frames

A run is a sorted list of frames in which each reaches the next within the gap tolerance, together
with the span of time that it covers. The sort key is one of the two timestamps.
-/

namespace MediaPipeline

/-- The timestamp by which a buffer sorts. -/
inductive FrameOrder where
  | pts | dts
  deriving DecidableEq, Repr

namespace FrameOrder

variable {F T : Type} [Frame F T] [MediaTime T]

def key (order : FrameOrder) (f : F) : T :=
  match order with
  | pts => Frame.pts f
  | dts => Frame.dts f

/-- The end of `a` is within the gap tolerance of the start of `b`, or past it. -/
def reaches (order : FrameOrder) (a b : F) : Bool :=
  decide (order.key b ≤ order.key a + Frame.duration a + maxGap)

/-! ## Searching a sorted list -/

/-- Index of the first frame whose key is not less than `time`, from the front. -/
def firstFrom (order : FrameOrder) (frames : List F) (time : T) : Nat :=
  frames.findIdx fun f => decide (time ≤ order.key f)

/-- Index past the last frame whose key is less than `time`, from the back. -/
def pastLastBefore (order : FrameOrder) (frames : List F) (time : T) : Nat :=
  frames.length - (frames.reverse.findIdx fun f => decide (order.key f < time))

/-- Searches from the end of the list that is nearer to `time`. -/
def lowerBound (order : FrameOrder) (frames : List F) (time : T) : Nat :=
  match frames.head?, frames.getLast? with
  | some first, some last =>
    if time - order.key first < order.key last - time then order.firstFrom frames time
    else order.pastLastBefore frames time
  | _, _ => 0

end FrameOrder

structure Run (F T : Type) where
  frames : List F
  start : T
  stop : T
  deriving DecidableEq, Repr

namespace Run

variable {F T : Type} [Frame F T] [MediaTime T]

def singleton (f : F) : Run F T where
  frames := [f]
  start := Frame.pts f
  stop := Frame.presentationEnd f

/-- The bounds are the earliest presentation and the latest end of all the frames. -/
def ofFrames (frames : List F) : Run F T where
  frames
  start := frames.foldl (fun t f => MediaTime.earlier t (Frame.pts f)) MediaTime.posInf
  stop := frames.foldl (fun t f => MediaTime.later t (Frame.presentationEnd f)) MediaTime.negInf

def range (r : Run F T) : TimeRange T := ⟨r.start, r.stop⟩

/-- The last frame of the run reaches `f`. -/
def reachesFrame (order : FrameOrder) (r : Run F T) (f : F) : Bool :=
  r.frames.getLast?.any (order.reaches · f)

/-- `f` reaches the first frame of the run. -/
def reachedBy (order : FrameOrder) (r : Run F T) (f : F) : Bool :=
  r.frames.head?.any (order.reaches f ·)

/-- The last frame of the run is not before `time`. -/
def endsFrom (order : FrameOrder) (time : T) (r : Run F T) : Bool :=
  r.frames.getLast?.any fun f => decide (time ≤ order.key f)

/-- Puts `f` at its place in the list, instead of a frame that has the same key. -/
def insertFrame (order : FrameOrder) (frames : List F) (f : F) : List F :=
  let i := order.lowerBound frames (order.key f)
  if frames[i]?.any fun g => order.key g == order.key f then frames.set i f
  else frames.insertIdx i f

def insert (order : FrameOrder) (r : Run F T) (f : F) : Run F T where
  frames := insertFrame order r.frames f
  start := MediaTime.earlier r.start (Frame.pts f)
  stop := MediaTime.later r.stop (Frame.presentationEnd f)

def append (r next : Run F T) : Run F T where
  frames := r.frames ++ next.frames
  start := MediaTime.earlier r.start next.start
  stop := MediaTime.later r.stop next.stop

end Run

end MediaPipeline
