import MediaPipeline.Frame

/-!
# Aligning audio with the media clock

The bytes written since a sync point say how far the written audio reaches. When that is off from
the time of the next frame, bytes of the frame are skipped or silence is written first, in whole
samples.
-/

namespace MediaPipeline.Audio

variable {T : Type} [MediaTime T]

/-- Bytes of one instant of interleaved audio. -/
def bytesPerInstant (f : DecodedFrame T) : Nat := f.format.sampleSize * f.stream.channelCount

/-- Seconds of interleaved audio in `bytes`, in the format of `f`. -/
def bytesToSeconds (f : DecodedFrame T) (bytes : Nat) : T :=
  if bytesPerInstant f = 0 ∨ f.stream.sampleRate = 0 then 0
  else MediaTime.ofNat (bytes / bytesPerInstant f) / MediaTime.ofNat f.stream.sampleRate

/-- Instants by which the written audio is ahead of `next`, none if it is within the limit. -/
def drift (syncTime : T) (bytesWritten : Nat) (next : DecodedFrame T) (limit : T) : Int :=
  let ahead := syncTime + bytesToSeconds next bytesWritten - next.pts
  if MediaTime.abs ahead < limit then 0
  else MediaTime.truncate (ahead * MediaTime.ofNat next.stream.sampleRate)

/-- The signed 64-bit numbers. -/
def IsWord (n : Int) : Prop := -9223372036854775808 ≤ n ∧ n < 9223372036854775808

instance (n : Int) : Decidable (IsWord n) := inferInstanceAs (Decidable (_ ∧ _))

def mulWord? (m n : Int) : Option Int := if IsWord (m * n) then some (m * n) else none

/-- Bytes of `next` to skip, or, if negative, bytes of silence to write before it. There is no such
number if one of the products overflows. -/
def syncBytes? (syncTime : T) (bytesWritten : Nat) (next : DecodedFrame T) (limit : T) :
    Option Int := do
  let samples ← mulWord? (drift syncTime bytesWritten next limit) next.stream.channelCount
  mulWord? samples next.format.sampleSize

/-! ## Interleaving -/

/-- The first `n` samples of each plane, side by side. -/
def interleaveSamples (size : Nat) : Nat → List Bytes → Bytes
  | 0, _ => []
  | n + 1, planes =>
    planes.flatMap (List.take size) ++ interleaveSamples size n (planes.map (List.drop size))

/-- The length of the shortest plane. -/
def shortest : List Bytes → Nat
  | [] => 0
  | p :: ps => ps.foldl (fun n q => min n q.length) p.length

/-- Planar audio in packed order, without its first `skip` bytes. A frame that has fewer planes than
channels has no sound. -/
def interleave (f : DecodedFrame T) (skip : Nat) : Bytes :=
  let channels := f.stream.channelCount
  let size := f.format.sampleSize
  if channels = 0 ∨ size = 0 ∨ f.planes.length < channels then []
  else
    let planes := f.planes.take channels
    let skipped := skip / channels / size
    interleaveSamples size (shortest planes / size - skipped)
      (planes.map (List.drop (skipped * size)))

/-- The bytes to write for `f` when its first `skip` bytes are left out. -/
def frameBytes (f : DecodedFrame T) (skip : Nat) : Bytes :=
  if f.format.isPlanar then interleave f skip
  else
    match f.planes with
    | [] => []
    | plane :: _ => plane.drop skip

end MediaPipeline.Audio
