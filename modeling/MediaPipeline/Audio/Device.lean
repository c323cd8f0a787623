import MediaPipeline.Frame

/-!
# Audio devices

A device queues interleaved bytes and plays them. `Playout` is a device that plays what is queued at
the byte rate of its format against a wall clock; it settles its queue whenever it is touched.
-/

namespace MediaPipeline

/-- Every call is told the wall time. -/
class AudioDevice (D : Type) (T : outParam Type) where
  /-- Opens the device for the format of a frame. -/
  init : D → (now : Nat) → DecodedFrame T → (volume : T) → Except MediaError Unit × D
  append : D → (now : Nat) → Bytes → Except MediaError Unit × D
  clear : D → (now : Nat) → D
  /-- Bytes queued and not yet played. -/
  bytesBuffered : D → (now : Nat) → Nat × D
  setPlaying : D → (now : Nat) → Bool → D
  setVolume : D → (now : Nat) → T → D

structure Playout (T : Type) where
  queued : Nat
  playing : Bool
  bytesPerSecond : T
  lastUpdate : Nat
  bytesWritten : Nat
  inits : Nat
  deriving DecidableEq, Repr

namespace Playout

variable {T : Type} [MediaTime T]

def new (now : Nat) : Playout T where
  queued := 0
  playing := false
  bytesPerSecond := 0
  lastUpdate := now
  bytesWritten := 0
  inits := 0

/-- Takes off what has been played since the last update, in whole bytes. -/
def settle (p : Playout T) (now : Nat) : Playout T :=
  let played :=
    if p.playing then
      MediaTime.floorNat (MediaTime.ofNanos (now - p.lastUpdate) * p.bytesPerSecond)
    else 0
  { p with queued := p.queued - played, lastUpdate := now }

def init (p : Playout T) (now : Nat) (f : DecodedFrame T) : Except MediaError Unit × Playout T :=
  match f.format with
  | .video _ => (.error (.device "video frame sent to audio device"), p)
  | .audio format =>
    let rate := MediaTime.ofNat f.stream.sampleRate * MediaTime.ofNat f.stream.channelCount *
      MediaTime.ofNat format.bytesPerSample
    (.ok (), { p.settle now with queued := 0, bytesPerSecond := rate, inits := p.inits + 1 })

def append (p : Playout T) (now : Nat) (data : Bytes) : Playout T :=
  let p := p.settle now
  { p with queued := p.queued + data.length, bytesWritten := p.bytesWritten + data.length }

def clear (p : Playout T) (now : Nat) : Playout T := { p.settle now with queued := 0 }

def bytesBuffered (p : Playout T) (now : Nat) : Nat × Playout T :=
  let p := p.settle now
  (p.queued, p)

def setPlaying (p : Playout T) (now : Nat) (playing : Bool) : Playout T :=
  { p.settle now with playing }

end Playout

instance {T : Type} [MediaTime T] : AudioDevice (Playout T) T where
  init p now f _ := p.init now f
  append p now data := (.ok (), p.append now data)
  clear := Playout.clear
  bytesBuffered := Playout.bytesBuffered
  setPlaying := Playout.setPlaying
  setVolume p _ _ := p

end MediaPipeline
