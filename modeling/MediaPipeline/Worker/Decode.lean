import MediaPipeline.Config.Settings
import MediaPipeline.Decoder
import MediaPipeline.FrameBuffer.Store
import MediaPipeline.Worker.Rest

/-!
# Decoding

A decode worker takes compressed frames from its input in decode order, decodes them and adds the
raw frames to its output, staying a fixed amount ahead of the playhead. A cursor holds the decode
time of the last frame; a seek clears it, and decoding then starts anew from the key frame at the
current time or before it.

One round of the loop leases the decoder, works without any lock, and gives the decoder back. The
round is cut into steps; seeks and the other calls may come between any two of them, and what was
decoded across a seek is dropped.
-/

namespace MediaPipeline

structure DecodeInputs (D : Type) where
  input : Option Nat
  output : Option Nat
  decoder : Option D
  /-- Counts the decoders that were installed, so that a leased one does not replace its
  successor. -/
  installs : Nat
  ring : Option Keyring
  deriving DecidableEq, Repr

/-- What one round works with. -/
structure DecodeLease (D : Type) where
  input : Nat
  output : Nat
  decoder : D
  installs : Nat
  ring : Option Keyring
  deriving DecidableEq, Repr

/-- What a round has read before it looks for a frame. -/
structure DecodeSnapshot (T : Type) where
  seeks : Nat
  time : T
  cursor : Option T
  deriving DecidableEq, Repr

/-- How a round ends once the decoder is back. -/
inductive RoundEnd where
  | again
  | sleep (nanos : Nat)
  | fail (error : MediaError)
  deriving DecidableEq, Repr

inductive DecodePhase (D T : Type) where
  | checking
  /-- About to take its inputs, under the lock. -/
  | leasing
  | parked
  | countingSeeks (lease : DecodeLease D)
  | timing (lease : DecodeLease D) (seeks : Nat)
  | readingCursor (lease : DecodeLease D) (seeks : Nat) (time : T)
  /-- About to see whether enough is decoded, and to evict what is far behind. -/
  | throttling (lease : DecodeLease D) (snapshot : DecodeSnapshot T)
  | choosing (lease : DecodeLease D) (snapshot : DecodeSnapshot T)
  /-- No frame was found; about to see whether the decoder is to be flushed. -/
  | flushing (lease : DecodeLease D) (snapshot : DecodeSnapshot T)
  | decoding (lease : DecodeLease D) (snapshot : DecodeSnapshot T)
      (frame : Option (EncodedFrame T))
  /-- About to add the output, under the lock, unless there was a seek. -/
  | storing (lease : DecodeLease D) (snapshot : DecodeSnapshot T)
      (frame : Option (EncodedFrame T)) (decoded : List (DecodedFrame T))
  /-- About to move the cursor on to the frame, unless it has changed. -/
  | advancing (lease : DecodeLease D) (snapshot : DecodeSnapshot T) (frame : EncodedFrame T)
      (reached : T)
  /-- The cursor has moved; about to see whether a seek is done. -/
  | settling (lease : DecodeLease D) (snapshot : DecodeSnapshot T) (reached : T)
  /-- About to give the decoder back, under the lock. -/
  | returning (lease : DecodeLease D) (next : RoundEnd)
  | failing (error : MediaError)
  | sleeping (nanos : Nat)
  | exited
  deriving DecidableEq, Repr

inductive DecodeEvent (T : Type) where
  | reset
  /-- The decoder is called, to be flushed if there is no frame. -/
  | decode (frame : Option (EncodedFrame T))
  | decoded (frame : Option (EncodedFrame T)) (count : Nat)
  | seekDone
  | waitingForKey
  | failed (error : MediaError)
  deriving DecidableEq, Repr

structure DecodeWorker (D T : Type) where
  inputs : DecodeInputs D
  /-- The decode time of the last frame decoded; none from a seek on. -/
  cursor : Option T
  seeks : Nat
  seeking : Bool
  flushed : Bool
  /-- A missing key has been made known. -/
  keyAwaited : Bool
  signalled : Bool
  shutdown : Bool
  phase : DecodePhase D T
  deriving DecidableEq, Repr

namespace DecodeWorker

variable {D T : Type}

def new : DecodeWorker D T where
  inputs := ⟨none, none, none, 0, none⟩
  cursor := none
  seeks := 0
  seeking := false
  flushed := false
  keyAwaited := false
  signalled := false
  shutdown := false
  phase := .checking

def rest (w : DecodeWorker D T) : Rest :=
  match w.phase with
  | .parked => if w.signalled then .running else .parked
  | .sleeping nanos => .sleeping nanos
  | .exited => .exited
  | _ => .running

def wake (w : DecodeWorker D T) : DecodeWorker D T :=
  match w.phase with
  | .sleeping _ => { w with phase := .checking }
  | _ => w

/-! ## Leasing the decoder -/

/-- Takes everything that a round needs, or parks until something is attached. -/
def lease (w : DecodeWorker D T) : DecodeWorker D T :=
  if w.shutdown then { w with phase := .checking }
  else
    match w.inputs.input, w.inputs.output, w.inputs.decoder with
    | some input, some output, some decoder =>
      { w with
        inputs := { w.inputs with decoder := none }
        phase := .countingSeeks ⟨input, output, decoder, w.inputs.installs, w.inputs.ring⟩ }
    | _, _, _ => { w with signalled := false, phase := .parked }

/-- Gives the decoder back, unless another one was installed meanwhile. -/
def giveBack (w : DecodeWorker D T) (l : DecodeLease D) : DecodeInputs D :=
  if w.inputs.installs = l.installs && w.inputs.decoder.isNone then
    { w.inputs with decoder := some l.decoder }
  else w.inputs

variable [MediaTime T]

/-- A cursor holds only times that can be compared. -/
def cursorAt (dts : T) : Option T := if MediaTime.isNaN dts then none else some dts

def atEnd (settings : PipelineSettings T) (duration : Option T) (cursor : Option T) : Bool :=
  match cursor, duration with
  | some dts, some d => decide (d ≤ dts + settings.endDelta)
  | _, _ => false

/-- The frame to decode next: after a seek the key frame to start from, else the next frame in
decode order. -/
def chooseFrame (input : EncodedBuffer T) (s : DecodeSnapshot T) : Option (EncodedFrame T) :=
  match s.cursor with
  | none => input.getFrame s.time .keyFrameBefore
  | some dts => input.getFrame dts .after

def evict (settings : PipelineSettings T) (time : T) (output : DecodedBuffer T) :
    DecodedBuffer T :=
  let before := time - settings.evictionBehind
  if 0 < before then output.remove MediaTime.negInf before else output

variable [Decoder D T]

/-- One step of the loop. `time` and `duration` are those of the media at this moment. -/
def step (settings : PipelineSettings T) (time : T) (duration : Option T)
    (w : DecodeWorker D T) (store : BufferStore T) :
    DecodeWorker D T × BufferStore T × List (DecodeEvent T) :=
  match w.phase with
  | .checking => ({ w with phase := if w.shutdown then .exited else .leasing }, store, [])
  | .leasing => (w.lease, store, [])
  | .parked =>
    if w.signalled then ({ w with phase := .checking }, store, []) else (w, store, [])
  | .countingSeeks l => ({ w with phase := .timing l w.seeks }, store, [])
  | .timing l seeks => ({ w with phase := .readingCursor l seeks time }, store, [])
  | .readingCursor l seeks time =>
    ({ w with phase := .throttling l ⟨seeks, time, w.cursor⟩ }, store, [])
  | .throttling l s =>
    let ahead := TimeRange.bufferedAhead (store.decodedAt l.output).ranges s.time
    if settings.decodeBufferAhead < ahead then
      ({ w with phase := .returning l (.sleep settings.noDataBackoff) }, store, [])
    else
      ({ w with phase := .choosing l s },
        store.editDecoded l.output (evict settings s.time), [])
  | .choosing l s =>
    let fresh := s.cursor.isNone
    let l := if fresh then { l with decoder := Decoder.reset l.decoder } else l
    let events := if fresh then [.reset] else []
    match chooseFrame (store.encodedAt l.input) s with
    | some f => ({ w with phase := .decoding l s (some f) }, store, events ++ [.decode (some f)])
    | none => ({ w with phase := .flushing l s }, store, events)
  | .flushing l s =>
    if !atEnd settings duration s.cursor then
      ({ w with phase := .returning l (.sleep settings.noDataBackoff) }, store, [])
    else if w.flushed then
      ({ w with phase := .returning l (.sleep settings.noDataBackoff) }, store, [])
    else ({ w with flushed := true, phase := .decoding l s none }, store, [.decode none])
  | .decoding l s frame =>
    match Decoder.decode l.decoder frame l.ring with
    | (.ok decoded, decoder) =>
      ({ w with keyAwaited := false, phase := .storing { l with decoder } s frame decoded },
        store, [.decoded frame decoded.length])
    | (.error e, decoder) =>
      let l := { l with decoder }
      if e.isRecoverable then
        ({ w with keyAwaited := true,
                  phase := .returning l (.sleep settings.missingKeyBackoff) },
          store, if w.keyAwaited then [] else [.waitingForKey])
      else ({ w with phase := .returning l (.fail e) }, store, [])
  | .storing l s frame decoded =>
    if w.seeks != s.seeks then ({ w with phase := .returning l .again }, store, [])
    else
      let store := store.editDecoded l.output (·.addAll decoded)
      match frame with
      | none => ({ w with phase := .returning l .again }, store, [])
      | some f =>
        let reached := (decoded.getLast?.map DecodedFrame.pts).getD (-1)
        ({ w with phase := .advancing l s f reached }, store, [])
  | .advancing l s f reached =>
    if w.cursor == s.cursor then
      ({ w with cursor := cursorAt f.dts, phase := .settling l s reached }, store, [])
    else ({ w with phase := .returning l .again }, store, [])
  | .settling l s reached =>
    if s.time ≤ reached && w.seeking then
      ({ w with seeking := false, phase := .returning l .again }, store, [.seekDone])
    else ({ w with phase := .returning l .again }, store, [])
  | .returning l next =>
    let w := { w with inputs := w.giveBack l }
    match next with
    | .again => ({ w with phase := .checking }, store, [])
    | .sleep nanos => ({ w with phase := .sleeping nanos }, store, [])
    | .fail e => ({ w with phase := .failing e }, store, [])
  | .failing e => ({ w with phase := .exited }, store, [.failed e])
  | .sleeping _ | .exited => (w, store, [])

/-! ## Acting on the worker -/

/-- Starts over from the current time, under the lock, and drops what has been decoded. -/
def onSeek (w : DecodeWorker D T) (store : BufferStore T) : DecodeWorker D T × BufferStore T :=
  ({ w with cursor := none, seeking := true, flushed := false, seeks := w.seeks + 1 },
    match w.inputs.output with
    | some i => store.editDecoded i (·.clear)
    | none => store)

def attach (w : DecodeWorker D T) (input output : Nat) : DecodeWorker D T :=
  { w with
    inputs := { w.inputs with input := some input, output := some output }
    signalled := true }

def detach (w : DecodeWorker D T) : DecodeWorker D T :=
  { w with inputs := { w.inputs with input := none, output := none } }

/-- Installs a decoder; without one the worker parks. -/
def setDecoder (w : DecodeWorker D T) (decoder : Option D) : DecodeWorker D T :=
  { w with
    inputs := { w.inputs with decoder, installs := w.inputs.installs + 1 }
    signalled := true }

def setRing (w : DecodeWorker D T) (ring : Option Keyring) : DecodeWorker D T :=
  { w with inputs := { w.inputs with ring } }

def mapLease (f : DecodeLease D → DecodeLease D) : DecodePhase D T → DecodePhase D T
  | .countingSeeks l => .countingSeeks (f l)
  | .timing l seeks => .timing (f l) seeks
  | .readingCursor l seeks time => .readingCursor (f l) seeks time
  | .throttling l s => .throttling (f l) s
  | .choosing l s => .choosing (f l) s
  | .flushing l s => .flushing (f l) s
  | .decoding l s frame => .decoding (f l) s frame
  | .storing l s frame decoded => .storing (f l) s frame decoded
  | .advancing l s frame reached => .advancing (f l) s frame reached
  | .settling l s reached => .settling (f l) s reached
  | .returning l next => .returning (f l) next
  | phase => phase

/-- Changes the ring, which a round under way shares. -/
def mapRing (w : DecodeWorker D T) (f : Keyring → Keyring) : DecodeWorker D T :=
  { w with
    inputs := { w.inputs with ring := w.inputs.ring.map f }
    phase := mapLease (fun l => { l with ring := l.ring.map f }) w.phase }

def requestStop (w : DecodeWorker D T) : DecodeWorker D T :=
  { w with shutdown := true, signalled := true }

end DecodeWorker

end MediaPipeline
