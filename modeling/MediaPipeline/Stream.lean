/-!
# Elementary streams
-/

namespace MediaPipeline

abbrev Bytes := List UInt8

/-- Codec and layout of one elementary stream. Each descriptor has its own `id`: two streams that
look alike are still two streams, and going from one to the other is a stream change. -/
structure Stream where
  id : Nat
  mimeType : String
  codec : String
  isVideo : Bool
  width : Nat
  height : Nat
  channelCount : Nat
  sampleRate : Nat
  extraData : Bytes
  deriving DecidableEq, Repr

namespace Stream

def audio (id : Nat) (codec : String) (sampleRate channelCount : Nat) : Stream where
  id
  mimeType := "audio/" ++ codec
  codec
  isVideo := false
  width := 0
  height := 0
  channelCount
  sampleRate
  extraData := []

def video (id : Nat) (codec : String) (width height : Nat) : Stream where
  id
  mimeType := "video/" ++ codec
  codec
  isVideo := true
  width
  height
  channelCount := 0
  sampleRate := 0
  extraData := []

end Stream

end MediaPipeline
