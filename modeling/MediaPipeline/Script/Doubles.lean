import MediaPipeline.Audio.Device
import MediaPipeline.Decoder
import MediaPipeline.Pipeline.Clients

/-!
# Stand-ins for scripts

A decoder that holds frames back, fails and runs commands on cue, an audio device that records what
it is told, and a player that does as it is told.
-/

namespace MediaPipeline.Script

/-! ## Decoder -/

/-- An error that the frame at `pts` meets with, a number of times. -/
structure Fault (T : Type) where
  pts : T
  error : MediaError
  times : Nat
  deriving DecidableEq, Repr

/-- `C` are the commands that it runs while it decodes. -/
structure ScriptedDecoder (C T : Type) where
  /-- Frames held back until a flush. -/
  hold : Nat
  faults : List (Fault T)
  during : List (T × List C)
  held : List (DecodedFrame T)

namespace ScriptedDecoder

variable {C T : Type} [MediaTime T]

/-- Uses up one fault of the frame at `pts`. -/
def takeFault (pts : T) : List (Fault T) → Option (MediaError × List (Fault T))
  | [] => none
  | f :: fs =>
    if f.pts == pts && f.times != 0 then some (f.error, { f with times := f.times - 1 } :: fs)
    else (takeFault pts fs).map fun (e, fs) => (e, f :: fs)

/-- Takes out the commands to run while the frame at `pts` is decoded. -/
def takeDuring (d : ScriptedDecoder C T) (pts : T) : List C × ScriptedDecoder C T :=
  match d.during.findIdx? (·.1 == pts) with
  | some i => (((d.during[i]?).map Prod.snd).getD [], { d with during := d.during.eraseIdx i })
  | none => ([], d)

/-- Queues what passes through, and hands out the oldest frames beyond those to hold. -/
def decode (d : ScriptedDecoder C T) (frame : Option (EncodedFrame T)) (ring : Option Keyring) :
    Except MediaError (List (DecodedFrame T)) × ScriptedDecoder C T :=
  match frame with
  | none => (.ok d.held, { d with held := [] })
  | some f =>
    match takeFault f.pts d.faults with
    | some (e, faults) => (.error e, { d with faults })
    | none =>
      match PassThrough.decode (some f) ring with
      | .error e => (.error e, d)
      | .ok frames =>
        let held := d.held ++ frames
        let n := held.length - d.hold
        (.ok (held.take n), { d with held := held.drop n })

end ScriptedDecoder

instance {C T : Type} [MediaTime T] : Decoder (ScriptedDecoder C T) T where
  decode := ScriptedDecoder.decode
  reset d := { d with held := [] }

/-! ## Audio device -/

inductive DeviceEvent (T : Type) where
  | init (pts volume : T)
  | append (data : Bytes)
  | clear
  | playing (on : Bool)
  | volume (volume : T)
  deriving DecidableEq, Repr

/-- Records the calls. What it says is buffered is set by hand, unless it has a playout. -/
structure ScriptedDevice (T : Type) where
  playout : Option (Playout T)
  buffered : Nat
  failAppend : Bool
  failInit : Bool
  log : List (DeviceEvent T)

namespace ScriptedDevice

variable {T : Type} [MediaTime T]

def record (d : ScriptedDevice T) (e : DeviceEvent T) : ScriptedDevice T :=
  { d with log := d.log ++ [e] }

def init (d : ScriptedDevice T) (now : Nat) (f : DecodedFrame T) (volume : T) :
    Except MediaError Unit × ScriptedDevice T :=
  let d := d.record (.init f.pts volume)
  if d.failInit then (.error (.device "init"), d)
  else
    match d.playout with
    | none => (.ok (), d)
    | some p => let (r, p) := p.init now f; (r, { d with playout := some p })

def append (d : ScriptedDevice T) (now : Nat) (data : Bytes) :
    Except MediaError Unit × ScriptedDevice T :=
  if d.failAppend then (.error (.device "append"), d)
  else
    let d := d.record (.append data)
    (.ok (), { d with playout := d.playout.map (·.append now data) })

def bytesBuffered (d : ScriptedDevice T) (now : Nat) : Nat × ScriptedDevice T :=
  match d.playout with
  | none => (d.buffered, d)
  | some p => let (n, p) := p.bytesBuffered now; (n, { d with playout := some p })

end ScriptedDevice

instance {T : Type} [MediaTime T] : AudioDevice (ScriptedDevice T) T where
  init := ScriptedDevice.init
  append := ScriptedDevice.append
  clear d now := { d.record .clear with playout := d.playout.map (·.clear now) }
  bytesBuffered := ScriptedDevice.bytesBuffered
  setPlaying d now on :=
    { d.record (.playing on) with playout := d.playout.map (·.setPlaying now on) }
  setVolume d _ v := d.record (.volume v)

/-! ## Player -/

/-- A player whose clock is set by hand. -/
structure ScriptedPlayer (C T : Type) where
  view : PlayerView T
  clients : Clients C

end MediaPipeline.Script
