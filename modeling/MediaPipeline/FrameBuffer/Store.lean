import MediaPipeline.FrameBuffer.Lookup

/-!
# Stores of buffers

The buffers that the workers of an engine share, by number.
-/

namespace MediaPipeline

structure BufferStore (T : Type) where
  encoded : List (EncodedBuffer T)
  decoded : List (DecodedBuffer T)
  deriving DecidableEq, Repr

namespace BufferStore

variable {T : Type} [MediaTime T]

def new (n : Nat) : BufferStore T where
  encoded := List.replicate n (.empty .dts)
  decoded := List.replicate n (.empty .pts)

def encodedAt (s : BufferStore T) (i : Nat) : EncodedBuffer T := s.encoded.getD i (.empty .dts)

def decodedAt (s : BufferStore T) (i : Nat) : DecodedBuffer T := s.decoded.getD i (.empty .pts)

def editEncoded (s : BufferStore T) (i : Nat) (f : EncodedBuffer T → EncodedBuffer T) :
    BufferStore T :=
  { s with encoded := s.encoded.modify i f }

def editDecoded (s : BufferStore T) (i : Nat) (f : DecodedBuffer T → DecodedBuffer T) :
    BufferStore T :=
  { s with decoded := s.decoded.modify i f }

end BufferStore

end MediaPipeline
