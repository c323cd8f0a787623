import MediaPipeline.FrameBuffer.Lookup
import MediaPipeline.Pipeline.Basic

/-!
# Choosing video frames

The drawing side asks for the frame to show now and for the time to wait before it asks again.
Frames that lie between two drawn ones are counted as dropped.
-/

namespace MediaPipeline

inductive VideoFillMode where
  | maintainRatio | stretch | zoom
  deriving DecidableEq, Repr

namespace VideoFillMode

def name : VideoFillMode → String
  | maintainRatio => "maintain_ratio"
  | stretch => "stretch"
  | zoom => "zoom"

def ofName? (s : String) : Option VideoFillMode :=
  [maintainRatio, stretch, zoom].find? (·.name == s)

end VideoFillMode

structure VideoQuality where
  total : Nat
  dropped : Nat
  corrupted : Nat
  deriving DecidableEq, Repr

structure VideoRenderer (T : Type) where
  quality : VideoQuality
  fillMode : VideoFillMode
  /-- The time of the frame drawn last; negative until the first draw after a seek. -/
  lastDrawn : T
  deriving DecidableEq, Repr

namespace VideoRenderer

variable {F T : Type} [Frame F T] [MediaTime T]

/-- The shortest wait between draws, 120 a second. -/
def minDelay : T := 1 / MediaTime.ofNat 120

/-- The longest wait between draws, 15 a second. -/
def maxDelay : T := 1 / MediaTime.ofNat 15

def new : VideoRenderer T where
  quality := ⟨0, 0, 0⟩
  fillMode := .maintainRatio
  lastDrawn := -1

/-- The next draw counts as the first. -/
def onSeeking (v : VideoRenderer T) : VideoRenderer T := { v with lastDrawn := -1 }

/-- Seconds until the frame after `f` is due. -/
def delayAfter (frames : FrameBuffer F T) (f : F) (time : T) : T :=
  let wait :=
    match frames.getFrame (Frame.pts f) .after with
    | some next => Frame.pts next - time
    | none => 0
  MediaTime.clamp wait minDelay maxDelay

/-- Counts `f` as drawn, and the frames passed over since the last draw as dropped. -/
def count (v : VideoRenderer T) (frames : FrameBuffer F T) (f : F) : VideoRenderer T :=
  let pts := Frame.pts f
  let q := v.quality
  let quality :=
    if 0 ≤ v.lastDrawn then
      let skipped := frames.countBetween v.lastDrawn pts
      { q with
        total := q.total + skipped + (if pts == v.lastDrawn then 0 else 1)
        dropped := q.dropped + skipped }
    else { q with total := q.total + 1 }
  { v with quality, lastDrawn := pts }

/-- The frame to draw now and the seconds until the next call. There is none while seeking or when
nothing is buffered; then the last picture stays. -/
def draw (v : VideoRenderer T) (player : Option (PlayerView T))
    (input : Option (FrameBuffer F T)) : Option F × T × VideoRenderer T :=
  match player, input with
  | some player, some frames =>
    if player.state.isSeeking then (none, minDelay, v)
    else
      match frames.getFrame player.time .near with
      | none => (none, minDelay, v)
      | some f => (some f, delayAfter frames f player.time, v.count frames f)
  | _, _ => (none, minDelay, v)

end VideoRenderer

end MediaPipeline
