import MediaPipeline.MediaTime

/-!
# Buffered time ranges

Spans of buffered media, and the questions that workers ask about a list of them: how far it reaches
from a time, whether one span covers a stretch, and what several sources have in common.
-/

namespace MediaPipeline

/-- Two frames no further apart than this belong to one span. -/
def maxGap {T : Type} [MediaTime T] : T := 0.15

structure TimeRange (T : Type) where
  start : T
  stop : T
  deriving DecidableEq, Repr

namespace TimeRange

variable {T : Type} [MediaTime T]

def duration (r : TimeRange T) : T := r.stop - r.start

/-! ## Reach -/

/-- Seconds buffered from `time` on without a break. Only the first span that ends after `time`
counts, and only if it starts within the gap tolerance. -/
def bufferedAhead (ranges : List (TimeRange T)) (time : T) : T :=
  match ranges.find? (fun r => time < r.stop) with
  | some r => if r.start < time + maxGap then r.stop - MediaTime.later time r.start else 0
  | none => 0

/-- The end of the media is within `delta` of `time`. -/
def nearEnd (duration : Option T) (time delta : T) : Bool :=
  match duration with
  | some d => decide (d ≤ time + delta)
  | none => false

/-- One span starts at `start` or before, with the gap tolerance, and reaches `stop`. A stretch that
ends near the end of the media only needs the start. -/
def isBufferedUntil (ranges : List (TimeRange T)) (start stop : T) (duration : Option T)
    (delta : T) : Bool :=
  ranges.any fun r =>
    decide (r.start ≤ start + maxGap) && (decide (stop ≤ r.stop) || nearEnd duration stop delta)

/-! ## Intersection -/

/-- Sweeps two sorted lists together; the span that ends first makes way for its successor. -/
def meet : List (TimeRange T) → List (TimeRange T) → List (TimeRange T)
  | [], _ => []
  | _ :: _, [] => []
  | a :: as, b :: bs =>
    let start := MediaTime.later a.start b.start
    let stop := MediaTime.earlier a.stop b.stop
    let rest := if a.stop < b.stop then meet as (b :: bs) else meet (a :: as) bs
    if start < stop then ⟨start, stop⟩ :: rest else rest
termination_by as bs => as.length + bs.length

/-- The spans buffered in every source; none if there is no source. -/
def intersection : List (List (TimeRange T)) → List (TimeRange T)
  | [] => []
  | first :: rest => rest.foldl meet first

end TimeRange

end MediaPipeline
