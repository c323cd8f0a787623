import MediaPipeline.Segment

/-!
# Synthetic media

Media made up of frames of one length, cut into segments. The cuts need not fall on frame borders;
a frame belongs to the segment in which its start lies, to the nearest frame border.
-/

namespace MediaPipeline.SyntheticMedia

variable {T : Type} [MediaTime T]

/-! ## Frames -/

def audioFrameLength : T := 0.1

def videoFrameLength : T := 1 / MediaTime.ofNat 30

/-- Every so many video frames there is a key frame. -/
def videoGroup : Nat := 15

def audioStream (id : Nat) : Stream := .audio id "pcm" 8000 1

def videoStream (id : Nat) : Stream := .video id "raw" 4 2

/-- The numbers of the frames that belong to the media from `start` to `stop`. -/
def frameNumbers (start stop frameLength : T) : List Nat :=
  let first := MediaTime.roundNat (start / frameLength)
  let last := MediaTime.roundNat (stop / frameLength)
  List.range' first (last - first)

/-- Silence, one byte a sample. -/
def audioFrames (start stop : T) : List (SegmentFrame T) :=
  (frameNumbers start stop audioFrameLength).map fun i =>
    { pts := MediaTime.ofNat i * audioFrameLength, duration := audioFrameLength,
      isKeyFrame := true, payload := List.replicate 800 0x80 }

/-- Pictures of one colour, three bytes a pixel. -/
def videoFrames (start stop : T) : List (SegmentFrame T) :=
  (frameNumbers start stop videoFrameLength).map fun i =>
    { pts := MediaTime.ofNat i * videoFrameLength, duration := videoFrameLength,
      isKeyFrame := i % videoGroup = 0, payload := List.replicate 24 (UInt8.ofNat i) }

/-! ## Segments -/

/-- Slices of a length that follow each other from `start` to the end, at most `count` of them. -/
def slicesFrom (duration length : T) : Nat → T → List (T × T)
  | 0, _ => []
  | count + 1, start =>
    if start < duration then
      let stop := MediaTime.earlier (start + length) duration
      (start, stop) :: slicesFrom duration length count stop
    else []

/-- The slices that the media are cut into. None but the last is shorter than an audio frame. -/
def slices (duration segmentLength : T) : List (T × T) :=
  let length := MediaTime.later segmentLength audioFrameLength
  slicesFrom duration length (2 * MediaTime.floorNat (duration / length) + 2) 0

end MediaPipeline.SyntheticMedia
