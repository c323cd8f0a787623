/-!
# Sample and pixel formats
-/

namespace MediaPipeline

inductive SampleType where
  | u8 | s16 | s32 | s64 | float | double
  deriving DecidableEq, Repr

inductive SampleLayout where
  /-- All channels of one instant side by side in one plane. -/
  | packed
  /-- One plane a channel. -/
  | planar
  deriving DecidableEq, Repr

structure SampleFormat where
  layout : SampleLayout
  sample : SampleType
  deriving DecidableEq, Repr

namespace SampleFormat

def bytesPerSample (f : SampleFormat) : Nat :=
  match f.sample with
  | .u8 => 1
  | .s16 => 2
  | .s32 | .float => 4
  | .s64 | .double => 8

def isPlanar (f : SampleFormat) : Bool := f.layout == .planar

end SampleFormat

inductive PixelFormat where
  | yuv420p | nv12 | rgb24
  deriving DecidableEq, Repr

namespace PixelFormat

def planeCount : PixelFormat → Nat
  | yuv420p => 3
  | nv12 => 2
  | rgb24 => 1

end PixelFormat

inductive FrameFormat where
  | audio (format : SampleFormat)
  | video (format : PixelFormat)
  deriving DecidableEq, Repr

namespace FrameFormat

def isPlanar : FrameFormat → Bool
  | audio format => format.isPlanar
  | video format => decide (1 < format.planeCount)

/-- Bytes of one sample of one channel; pixels have no samples. -/
def sampleSize : FrameFormat → Nat
  | audio format => format.bytesPerSample
  | video _ => 0

end FrameFormat

end MediaPipeline
