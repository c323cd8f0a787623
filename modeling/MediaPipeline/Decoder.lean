import MediaPipeline.Frame

/-!
# Decoders

A decoder turns compressed frames into raw ones and may hold some of them back until it is flushed.
The pass-through decoder takes the payload as samples or pixels and holds nothing back.
-/

namespace MediaPipeline

class Decoder (D : Type) (T : outParam Type) where
  /-- Decodes one frame, or, without one, hands out the frames that are still held. -/
  decode : D → Option (EncodedFrame T) → Option Keyring →
    Except MediaError (List (DecodedFrame T)) × D
  /-- Forgets what is held, before decoding starts afresh at a key frame. -/
  reset : D → D

/-! ## Passing payloads through -/

/-- The decoder that keeps nothing from one call to the next. -/
structure PassThrough (T : Type) where
  deriving DecidableEq, Repr

namespace PassThrough

variable {T : Type}

/-- Packed bytes as samples, or one plane of three bytes a pixel. -/
def rawFrame (f : EncodedFrame T) (data : Bytes) : DecodedFrame T :=
  let stream := f.stream
  if stream.isVideo then
    .video stream f.pts f.dts f.duration .rgb24 stream.width stream.height [data]
      [stream.width * 3]
  else
    .audio stream f.pts f.dts f.duration ⟨.packed, .u8⟩
      (data.length / max stream.channelCount 1 % UInt32.size) [data]

def decode (frame : Option (EncodedFrame T)) (ring : Option Keyring) :
    Except MediaError (List (DecodedFrame T)) :=
  match frame with
  | none => .ok []
  | some f =>
    match f.decrypt ring with
    | .ok data => .ok [rawFrame f data]
    | .error e => .error e

end PassThrough

instance {T : Type} : Decoder (PassThrough T) T where
  decode d frame ring := (PassThrough.decode frame ring, d)
  reset d := d

end MediaPipeline
