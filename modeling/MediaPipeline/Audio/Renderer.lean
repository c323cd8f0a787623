import MediaPipeline.Audio.Alignment
import MediaPipeline.Audio.Device
import MediaPipeline.Config.Settings
import MediaPipeline.FrameBuffer.Lookup
import MediaPipeline.Pipeline.Basic
import MediaPipeline.Worker.Rest

/-!
# Rendering audio

The audio renderer feeds raw frames to a device and keeps it aligned with the media clock of a
player. A resync, asked for by any change of the player or the input, clears the device and starts
from the frame at the current time; a change of stream opens the device anew.

One step is what the renderer does from taking its lock to releasing it. It releases the lock to
wait, to sleep, and to let the old stream play out before the device is opened for another one.
-/

namespace MediaPipeline

inductive RenderPhase (T : Type) where
  | rendering
  | parked
  | sleeping (nanos : Nat)
  /-- Asleep while the old stream plays out, with the first frame of the new one. -/
  | draining (next : DecodedFrame T) (nanos : Nat)
  | drained (next : DecodedFrame T)
  | exited
  deriving DecidableEq, Repr

structure AudioRenderer (D T : Type) where
  device : D
  following : Bool
  /-- The number of the buffer that it plays. -/
  input : Option Nat
  current : Option (DecodedFrame T)
  /-- The media time at which writing last began. -/
  syncTime : T
  /-- Bytes written since then. -/
  bytesWritten : Nat
  needsResync : Bool
  volume : T
  muted : Bool
  signalled : Bool
  shutdown : Bool
  phase : RenderPhase T
  deriving DecidableEq, Repr

namespace AudioRenderer

variable {D T : Type}

def rest (r : AudioRenderer D T) : Rest :=
  match r.phase with
  | .rendering | .drained _ => .running
  | .parked => if r.signalled then .running else .parked
  | .sleeping nanos | .draining _ nanos => .sleeping nanos
  | .exited => .exited

def wake (r : AudioRenderer D T) : AudioRenderer D T :=
  match r.phase with
  | .sleeping _ => { r with phase := .rendering }
  | .draining next _ => { r with phase := .drained next }
  | _ => r

/-- The same stream and format; anything else needs the device to be opened anew. -/
def isSimilar (current : Option (DecodedFrame T)) (next : DecodedFrame T) : Bool :=
  match current with
  | some cur => cur.stream.id == next.stream.id && cur.format == next.format
  | none => false

/-- Sizes of successive writes of silence, `chunk` bytes at most. -/
def silenceChunks (chunk bytes : Nat) : List Nat :=
  List.replicate (bytes / chunk) chunk ++ (if bytes % chunk = 0 then [] else [bytes % chunk])

/-- The bytes of one write of silence at most. -/
def maxSilence : Nat := 4096

variable [MediaTime T]

def new (device : D) : AudioRenderer D T where
  device
  following := false
  input := none
  current := none
  syncTime := 0
  bytesWritten := 0
  needsResync := true
  volume := 1
  muted := false
  signalled := false
  shutdown := false
  phase := .rendering

def effectiveVolume (r : AudioRenderer D T) : T := if r.muted then 0 else r.volume

/-- Sleeps for a time in seconds. A length that cannot be measured ends the renderer. -/
def sleep (r : AudioRenderer D T) (seconds : T) : AudioRenderer D T :=
  match MediaTime.toNanos? (MediaTime.later seconds 0) with
  | some nanos => { r with phase := .sleeping nanos }
  | none => { r with phase := .exited }

/-- Forgets earlier signals and waits for the next one. -/
def park (r : AudioRenderer D T) : AudioRenderer D T :=
  { r with signalled := false, phase := .parked }

variable [AudioDevice D T]

/-! ## Writing to the device -/

/-- Queues bytes; an error carries the renderer at the failure. -/
def append (now : Nat) (r : AudioRenderer D T) (data : Bytes) :
    Except (AudioRenderer D T) (AudioRenderer D T) :=
  match AudioDevice.append r.device now data with
  | (.ok (), device) => .ok { r with device, bytesWritten := r.bytesWritten + data.length }
  | (.error _, device) => .error { r with device }

def fillSilence (now : Nat) (r : AudioRenderer D T) (bytes : Nat) :
    Except (AudioRenderer D T) (AudioRenderer D T) :=
  (silenceChunks maxSilence bytes).foldlM (fun r n => r.append now (List.replicate n 0)) r

/-- Writes the frame without its first `skip` bytes; nothing is queued if nothing is left. -/
def writeFrame (now : Nat) (r : AudioRenderer D T) (f : DecodedFrame T) (skip : Nat) :
    Except (AudioRenderer D T) (AudioRenderer D T) :=
  match Audio.frameBytes f skip with
  | [] => .ok r
  | data => r.append now data

def setPlaying (now : Nat) (r : AudioRenderer D T) (playing : Bool) : AudioRenderer D T :=
  { r with device := AudioDevice.setPlaying r.device now playing }

/-- Opens the device for the format of `next`. -/
def openDevice (now : Nat) (r : AudioRenderer D T) (next : DecodedFrame T) :
    Except (AudioRenderer D T) (AudioRenderer D T) :=
  match AudioDevice.init r.device now next r.effectiveVolume with
  | (.ok (), device) => .ok (setPlaying now { r with device, needsResync := true } true)
  | (.error _, device) => .error { r with device }

/-- Starts counting at `time` if there is a resync to do. -/
def resync (r : AudioRenderer D T) (time : T) : AudioRenderer D T :=
  if r.needsResync || r.current.isNone then { r with syncTime := time, bytesWritten := 0 } else r

/-- The bytes of `next` to skip, or, if negative, the bytes of silence to write before it. -/
def correction? (settings : PipelineSettings T) (next : DecodedFrame T) (r : AudioRenderer D T) :
    Option Int :=
  Audio.syncBytes? r.syncTime r.bytesWritten next settings.audioSyncLimit

def writeCorrected (now : Nat) (next : DecodedFrame T) (adjust : Int) (r : AudioRenderer D T) :
    Except (AudioRenderer D T) (AudioRenderer D T) := do
  let r ← if adjust < 0 then r.fillSilence now adjust.natAbs else .ok r
  r.writeFrame now next adjust.toNat

/-- Writes `next`, aligned with the media clock, and goes on. Without a correction the renderer
ends. -/
def play (settings : PipelineSettings T) (now : Nat) (time : T) (next : DecodedFrame T)
    (r : AudioRenderer D T) : Except (AudioRenderer D T) (AudioRenderer D T) :=
  match (r.resync time).correction? settings next with
  | none => .error (r.resync time)
  | some adjust => do
    let r ← (r.resync time).writeCorrected now next adjust
    return { r with current := some next, needsResync := false, phase := .rendering }

/-- A device that fails ends the renderer. -/
def finish (result : Except (AudioRenderer D T) (AudioRenderer D T)) : AudioRenderer D T :=
  match result with
  | .ok r => r
  | .error r => { r with phase := .exited }

/-! ## Steps -/

/-- Handles the frame that was found, or waits for one. A frame of another stream or format first
lets the device play out what it has of the old one. -/
def present (settings : PipelineSettings T) (now : Nat) (time : T) (buffered : Nat)
    (r : AudioRenderer D T) : Option (DecodedFrame T) → AudioRenderer D T
  | none => r.sleep (MediaTime.ofNanos settings.renderNoDataBackoff)
  | some next =>
    if isSimilar r.current next then finish (r.play settings now time next)
    else
      match r.current with
      | some cur =>
        let left := Audio.bytesToSeconds cur buffered - settings.audioSyncLimit
        match MediaTime.toNanos? (MediaTime.later left 0) with
        | some nanos => { r with phase := .draining next nanos }
        | none => { r with phase := .exited }
      | none => finish (do (← r.openDevice now next).play settings now time next)

/-- Looks for a frame: the next one if the device can take more, or, at a resync, the one at the
current time for a device that is cleared first. -/
def feed (settings : PipelineSettings T) (now : Nat) (time : T) (frames : DecodedBuffer T)
    (r : AudioRenderer D T) : AudioRenderer D T :=
  let (buffered, device) := AudioDevice.bytesBuffered r.device now
  let r := { r with device }
  match r.current, r.needsResync with
  | some cur, false =>
    let extra := Audio.bytesToSeconds cur buffered - settings.audioBufferTarget
    if 0 < extra then r.sleep extra
    else r.present settings now time buffered (frames.getFrame cur.pts .after)
  | _, _ =>
    { r with device := AudioDevice.clear r.device now }.present settings now time buffered
      (frames.getFrame time .near)

def render (settings : PipelineSettings T) (now : Nat) (player : Option (PlayerView T))
    (frames : Option (DecodedBuffer T)) (r : AudioRenderer D T) : AudioRenderer D T :=
  if r.shutdown then { r with phase := .exited }
  else
    match player, frames with
    | some player, some frames =>
      let r := r.setPlaying now player.isAudible
      if player.isAudible then r.feed settings now player.time frames else r.park
    | _, _ => r.park

/-- Goes on with the first frame of the new stream after the old one has played out. The player that
is attached by now says whether it is heard; the time is still that of the one at the look-up. -/
def resume (settings : PipelineSettings T) (now : Nat) (player : Option (PlayerView T))
    (heldTime : T) (next : DecodedFrame T) (r : AudioRenderer D T) : AudioRenderer D T :=
  if r.shutdown then { r with phase := .exited }
  else
    match player with
    | none => (r.setPlaying now false).park
    | some player =>
      let r := r.setPlaying now player.isAudible
      if !player.isAudible then r.park
      else finish (do (← r.openDevice now next).play settings now heldTime next)

/-- One step of the loop. The player and the frames are those that the renderer is attached to, at
this moment; `heldTime` is the time of the player that it held while the device played out. -/
def step (settings : PipelineSettings T) (now : Nat) (player : Option (PlayerView T))
    (frames : Option (DecodedBuffer T)) (heldTime : T) (r : AudioRenderer D T) :
    AudioRenderer D T :=
  match r.phase with
  | .rendering => r.render settings now player frames
  | .drained next => r.resume settings now player heldTime next
  | .parked => if r.signalled then { r with phase := .rendering } else r
  | .sleeping _ | .draining _ _ | .exited => r

/-! ## Acting on the renderer -/

omit [AudioDevice D T] in
/-- The player has changed its state or rate or has sought. -/
def requestResync (r : AudioRenderer D T) : AudioRenderer D T :=
  { r with needsResync := true, signalled := true }

def setPlayer (r : AudioRenderer D T) (following : Bool) : AudioRenderer D T :=
  { r with following, needsResync := true, signalled := r.signalled || following }

def attach (r : AudioRenderer D T) (input : Nat) : AudioRenderer D T :=
  { r with input := some input, needsResync := true, signalled := true }

def detach (now : Nat) (r : AudioRenderer D T) : AudioRenderer D T :=
  setPlaying now { r with input := none } false

def setVolume (now : Nat) (r : AudioRenderer D T) (volume : T) : AudioRenderer D T :=
  let r := { r with volume }
  { r with device := AudioDevice.setVolume r.device now r.effectiveVolume }

def setMuted (now : Nat) (r : AudioRenderer D T) (muted : Bool) : AudioRenderer D T :=
  let r := { r with muted }
  { r with device := AudioDevice.setVolume r.device now r.effectiveVolume }

def requestStop (r : AudioRenderer D T) : AudioRenderer D T :=
  { r with shutdown := true, signalled := true }

end AudioRenderer

end MediaPipeline
