import MediaPipeline.FrameBuffer.Basic

/-!
# Looking up frames

Finding a frame by its place relative to a time, and counting the frames between two times. All
times are in the sort key of the buffer.
-/

namespace MediaPipeline

inductive FrameLocation where
  /-- The latest key frame that starts at the time or before. -/
  | keyFrameBefore
  /-- The frame that contains the time, else the closest. -/
  | near
  /-- The first frame that starts after the time. -/
  | after
  deriving DecidableEq, Repr

namespace FrameBuffer

variable {F T : Type} [Frame F T] [MediaTime T]

structure Focus (F T : Type) where
  prev : Option (Run F T)
  run : Run F T
  next : Option (Run F T)

/-- The first run that ends at `time` or later. -/
def focus? (order : FrameOrder) (time : T) :
    Option (Run F T) → List (Run F T) → Option (Focus F T)
  | _, [] => none
  | prev, r :: rs =>
    if r.endsFrom order time then some ⟨prev, r, rs.head?⟩
    else focus? order time (some r) rs

def lastFocus? : List (Run F T) → Option (Focus F T)
  | [] => none
  | [r] => some ⟨none, r, none⟩
  | r :: next :: rs =>
    match lastFocus? (next :: rs) with
    | some f => some { f with prev := f.prev <|> some r }
    | none => none

namespace Focus

/-- The first frame after `time`: at the place found, one further, or at the start of the next
run. -/
def after (order : FrameOrder) (time : T) (f : Focus F T) : Option F :=
  let frames := f.run.frames
  let i := order.lowerBound frames time
  match frames[i]? with
  | some g =>
    if time < order.key g then some g
    else frames[i + 1]? <|> f.next.bind (·.frames.head?)
  | none => frames[i + 1]? <|> f.next.bind (·.frames.head?)

/-- The frame at the place found or the one before, whichever is closer. The distance to the frame
before is measured from its end. -/
def near (order : FrameOrder) (time : T) (f : Focus F T) : Option F :=
  let frames := f.run.frames
  let i := order.lowerBound frames time
  match frames[i]? with
  | none => frames.getLast?
  | some next =>
    let prev :=
      if 0 < i then frames[i - 1]?
      else (f.prev.bind (·.frames.getLast?)) <|> some next
    prev.map fun prev =>
      let prevGap := time - order.key prev - Frame.duration prev
      let gap := order.key next - time
      if prevGap < gap && gap != 0 then prev else next

/-- Walks back from the place found to a key frame of the same run. -/
def keyFrameBefore (order : FrameOrder) (time : T) (f : Focus F T) : Option F :=
  let frames := f.run.frames
  let i := order.lowerBound frames time
  let upTo :=
    match frames[i]? with
    | none => frames
    | some g => if 0 < i && time < order.key g then frames.take i else frames.take (i + 1)
  match upTo.reverse.find? Frame.isKeyFrame with
  | some g => if order.key g ≤ time then some g else none
  | none => none

end Focus

def getFrame (b : FrameBuffer F T) (time : T) : FrameLocation → Option F
  | .after => (focus? b.order time none b.runs).bind (·.after b.order time)
  | .near =>
    (focus? b.order time none b.runs <|> lastFocus? b.runs).bind (·.near b.order time)
  | .keyFrameBefore =>
    (focus? b.order time none b.runs <|> lastFocus? b.runs).bind (·.keyFrameBefore b.order time)

/-! ## Counting -/

/-- The difference of two counts; there is none below zero. -/
def minus? (m n : Nat) : Option Nat := if n ≤ m then some (m - n) else none

/-- Adds the frames of one run that start strictly between two times to a count. The flag says
whether the run goes on past the second time. -/
def countInRun? (order : FrameOrder) (start stop : T) (count : Nat) (frames : List F) :
    Option (Nat × Bool) := do
  let s := order.lowerBound frames start
  let e := order.lowerBound frames stop
  let count := count + (← minus? e s)
  let atStart := decide (s < e) && frames[s]?.any fun f => order.key f == start
  let count ← if atStart then minus? count 1 else some count
  return (count, e != frames.length)

def countInRuns? (order : FrameOrder) (start stop : T) : Nat → List (Run F T) → Option Nat
  | count, [] => some count
  | count, r :: rs => do
    let (count, goesOn) ← countInRun? order start stop count r.frames
    if goesOn then return count else countInRuns? order start stop count rs

/-- The number of frames that start strictly between `start` and `stop`; none if one of the
differences on the way is below zero. -/
def countBetween? (b : FrameBuffer F T) (start stop : T) : Option Nat :=
  if stop ≤ start then some 0
  else countInRuns? b.order start stop 0 (b.runs.dropWhile (! ·.endsFrom b.order start))

/-- The count where there is one, as there is up to every time that is a number. -/
def countBetween (b : FrameBuffer F T) (start stop : T) : Nat :=
  (b.countBetween? start stop).getD 0

/-! ## Walking -/

/-- Follows the buffer from frame to frame, each time asking for the one after the last, for at most
`fuel` frames. -/
def walk (b : FrameBuffer F T) (time : T) : Nat → List F
  | 0 => []
  | fuel + 1 =>
    match b.getFrame time .after with
    | some f => f :: b.walk (b.order.key f) fuel
    | none => []

end FrameBuffer

end MediaPipeline
