import MediaPipeline.FrameBuffer.Run

/-!
# Frame buffers

Frames sorted by one timestamp and grouped into runs. The spans that the runs cover are what the
buffer reports as buffered; `toList` is the view through which its operations are described.
-/

namespace MediaPipeline

structure FrameBuffer (F T : Type) where
  order : FrameOrder
  runs : List (Run F T)
  deriving DecidableEq, Repr

namespace FrameBuffer

variable {F T : Type} [Frame F T] [MediaTime T]

def empty (order : FrameOrder) : FrameBuffer F T := ⟨order, []⟩

def toList (b : FrameBuffer F T) : List F := b.runs.flatMap Run.frames

def length (b : FrameBuffer F T) : Nat := b.toList.length

def isEmpty (b : FrameBuffer F T) : Bool := b.runs.isEmpty

def clear (b : FrameBuffer F T) : FrameBuffer F T := { b with runs := [] }

def payloadSize (b : FrameBuffer F T) : Nat :=
  b.toList.foldl (fun n f => n + Frame.payloadSize f) 0

def ranges (b : FrameBuffer F T) : List (TimeRange T) := b.runs.map Run.range

/-- No run is empty, and the sort keys increase strictly from the first frame to the last. -/
def Sorted (b : FrameBuffer F T) : Prop :=
  (∀ r ∈ b.runs, r.frames ≠ []) ∧
    b.toList.Pairwise fun f g => b.order.key f < b.order.key g

instance (b : FrameBuffer F T) : Decidable b.Sorted := by
  unfold Sorted; infer_instance

/-- The check that debug builds make after every change. It looks at one run at a time. -/
def passesCheck (b : FrameBuffer F T) : Bool :=
  b.runs.all fun r =>
    !r.frames.isEmpty && decide (r.start ≤ r.stop) &&
      (r.frames.zip r.frames.tail).all fun (f, g) => decide (b.order.key f ≤ b.order.key g)

/-! ## Adding a frame -/

/-- Puts `f` into the first run that reaches it, or into a run of its own in front of that run if it
does not reach the run's first frame, or at the end. -/
def place (order : FrameOrder) (f : F) : List (Run F T) → List (Run F T)
  | [] => [.singleton f]
  | r :: rs =>
    if r.reachesFrame order f then
      if r.reachedBy order f then r.insert order f :: rs else .singleton f :: r :: rs
    else r :: place order f rs

/-- The last frame of `r` reaches the first of `next`. -/
def touches (order : FrameOrder) (r next : Run F T) : Bool :=
  next.frames.head?.any (r.reachesFrame order ·)

/-- Joins `r` with the runs that follow it as long as they touch, and those among themselves. -/
def mergeFrom (order : FrameOrder) (r : Run F T) : List (Run F T) → List (Run F T)
  | [] => [r]
  | next :: rs =>
    if touches order r next then mergeFrom order (r.append next) rs
    else r :: mergeFrom order next rs

def mergeRuns (order : FrameOrder) : List (Run F T) → List (Run F T)
  | [] => []
  | r :: rs => mergeFrom order r rs

def add (b : FrameBuffer F T) (f : F) : FrameBuffer F T :=
  { b with runs := mergeRuns b.order (place b.order f b.runs) }

def addAll (b : FrameBuffer F T) (fs : List F) : FrameBuffer F T := fs.foldl add b

/-! ## Removing frames -/

/-- A frame that is shown first in `[start, stop)`. -/
def within (start stop : T) (f : F) : Bool :=
  decide (start ≤ Frame.pts f) && decide (Frame.pts f < stop)

/-- Removal ends at a key frame from `stop` on. -/
def endsRemoval (stop : T) (f : F) : Bool :=
  decide (stop ≤ Frame.pts f) && Frame.isKeyFrame f

/-- Splits the frames of one run into those kept in front of the removed ones and those kept after
them. The last component says whether removal goes on into the next run; a run in which removal
ends is not looked at again. -/
def cut (start stop : T) (removing : Bool) (frames : List F) : List F × List F × Bool :=
  if removing then
    let rest := frames.dropWhile (! endsRemoval stop ·)
    ([], rest, rest.isEmpty)
  else
    let kept := frames.takeWhile (! within start stop ·)
    match frames.dropWhile (! within start stop ·) with
    | [] => (kept, [], false)
    | _ :: fs =>
      let rest := fs.dropWhile (! endsRemoval stop ·)
      (kept, rest, rest.isEmpty)

def removeRuns (start stop : T) : Bool → List (Run F T) → List (Run F T)
  | _, [] => []
  | removing, r :: rs =>
    let (kept, rest, goesOn) := cut start stop removing r.frames
    let parts := [kept, rest].filter (! ·.isEmpty)
    parts.map Run.ofFrames ++ removeRuns start stop goesOn rs

/-- Removes the frames that are shown first in `[start, stop)`, and after them every frame up to the
next key frame from `stop` on, so that no run begins with a frame that cannot be decoded. The
bounds are presentation times whatever the order of the buffer. -/
def remove (b : FrameBuffer F T) (start stop : T) : FrameBuffer F T :=
  { b with runs := removeRuns start stop false b.runs }

end FrameBuffer

/-- Compressed frames, in the order of decoding. -/
abbrev EncodedBuffer (T : Type) := FrameBuffer (EncodedFrame T) T

/-- Raw frames, in the order of presentation. -/
abbrev DecodedBuffer (T : Type) := FrameBuffer (DecodedFrame T) T

end MediaPipeline
