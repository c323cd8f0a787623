import MediaPipeline.Format
import MediaPipeline.Keyring
import MediaPipeline.MediaTime

/-!
# Frames

Compressed frames come from a demuxer, raw frames from a decoder. Buffers see only their timing.
-/

namespace MediaPipeline

/-- What a buffer needs to know of a frame: when it is shown, when it is decoded, how long it
lasts, whether decoding can start there, and how many bytes of media it holds. -/
class Frame (F : Type) (T : outParam Type) where
  pts : F → T
  dts : F → T
  duration : F → T
  isKeyFrame : F → Bool
  payloadSize : F → Nat

namespace Frame

variable {F T : Type} [Frame F T] [MediaTime T]

def presentationEnd (f : F) : T := pts f + duration f

end Frame

/-! ## Compressed frames -/

structure EncodedFrame (T : Type) where
  pts : T
  dts : T
  duration : T
  isKeyFrame : Bool
  stream : Stream
  data : Bytes
  encryption : Option Encryption
  deriving DecidableEq, Repr

namespace EncodedFrame

variable {T : Type}

instance : Frame (EncodedFrame T) T where
  pts := pts
  dts := dts
  duration := duration
  isKeyFrame := isKeyFrame
  payloadSize f := f.data.length

def isEncrypted (f : EncodedFrame T) : Bool := f.encryption.isSome

def decrypt (f : EncodedFrame T) (ring : Option Keyring) : Except MediaError Bytes :=
  match f.encryption, ring with
  | none, _ => .ok f.data
  | some _, none => .error .noDecryptor
  | some encryption, some ring => ring.decrypt encryption f.data

end EncodedFrame

/-! ## Raw frames -/

/-- Packed audio has one plane, planar audio one a channel, and pictures as many as their format
says. -/
structure DecodedFrame (T : Type) where
  pts : T
  dts : T
  duration : T
  stream : Stream
  format : FrameFormat
  width : Nat
  height : Nat
  /-- Samples a channel; audio only. -/
  sampleCount : Nat
  planes : List Bytes
  /-- Bytes of one row of a picture, or of a whole plane of audio. -/
  lineSizes : List Nat
  deriving DecidableEq, Repr

namespace DecodedFrame

variable {T : Type}

/-- Every raw frame stands on its own. -/
instance : Frame (DecodedFrame T) T where
  pts := pts
  dts := dts
  duration := duration
  isKeyFrame _ := true
  payloadSize f := f.planes.flatten.length

def audio (stream : Stream) (pts dts duration : T) (format : SampleFormat) (sampleCount : Nat)
    (planes : List Bytes) : DecodedFrame T where
  pts
  dts
  duration
  stream
  format := .audio format
  width := 0
  height := 0
  sampleCount
  planes
  lineSizes := planes.map List.length

def video (stream : Stream) (pts dts duration : T) (format : PixelFormat) (width height : Nat)
    (planes : List Bytes) (lineSizes : List Nat) : DecodedFrame T where
  pts
  dts
  duration
  stream
  format := .video format
  width
  height
  sampleCount := 0
  planes
  lineSizes

end DecodedFrame

/-! ## Numbered frames -/

/-- A frame together with a number that tells it from every other one. -/
structure Numbered (F : Type) where
  number : Nat
  frame : F
  deriving DecidableEq, Repr

instance {F T : Type} [Frame F T] : Frame (Numbered F) T where
  pts f := Frame.pts f.frame
  dts f := Frame.dts f.frame
  duration f := Frame.duration f.frame
  isKeyFrame f := Frame.isKeyFrame f.frame
  payloadSize f := Frame.payloadSize f.frame

end MediaPipeline
