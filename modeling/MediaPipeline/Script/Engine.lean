import MediaPipeline.Audio.Renderer
import MediaPipeline.Script.Doubles
import MediaPipeline.Video.Renderer
import MediaPipeline.Worker.Decode
import MediaPipeline.Worker.Demux
import MediaPipeline.Worker.Monitor

/-!
# Scripted engines

All the workers of an engine in lockstep. Every worker goes on until it sleeps, parks or exits, and
the script acts only while all of them rest; a sleep ends only when the script says so.
-/

namespace MediaPipeline.Script

/-! ## Commands and answers -/

structure AppendRequest (T : Type) where
  data : Bytes
  offset : T
  window : AppendWindow T

inductive WorkerId where
  | demux (track : Nat)
  | decode (track : Nat)
  | monitor
  | audio
  deriving DecidableEq, Repr

namespace WorkerId

def name : WorkerId → String
  | demux i => s!"demux{i}"
  | decode i => s!"decode{i}"
  | monitor => "monitor"
  | audio => "audio"

end WorkerId

inductive EngineCommand (T : Type) where
  | call (call : PipelineCall T)
  | advance (nanos : Nat)
  /-- Releases a sleeping worker, a number of times. -/
  | wake (worker : String) (times : Nat)
  /-- Lets the clock run, releasing workers as their sleeps end. -/
  | run (nanos : Nat)
  | setDemuxer (track : Nat) (on : Bool)
  | append (track : Nat) (request : AppendRequest T)
  | resetDemuxer (track : Nat)
  | stopDemuxer (track : Nat)
  | push (track : Nat) (frames : List (EncodedFrame T))
  | clearEncoded (track : Nat)
  | removeEncoded (track : Nat) (start stop : T)
  | clearDecoded (track : Nat)
  | pushDecoded (track : Nat) (frames : List (DecodedFrame T))
  | listFrames (track : Nat)
  | setDecoder (track : Nat) (decoder : Option (ScriptedDecoder (EngineCommand T) T))
  | attach (track : Nat)
  | detach (track : Nat)
  | setRing (track : Nat) (on : Bool)
  | addKey (track : Nat) (key : Bytes)
  | decoderSeek (track : Nat)
  | stopDecoder (track : Nat)
  | startMonitor
  | stopMonitor
  | shutDownMonitor
  /-- Shows the monitor other ranges than those of the tracks, or theirs again. -/
  | overrideRanges (ranges : Option (List (TimeRange T) × List (TimeRange T)))
  | followVideo (on : Bool)
  | attachVideo (track : Nat)
  | draw
  | followAudio (on : Bool)
  | attachAudio (track : Nat)
  | detachAudio
  | setVolume (volume : T)
  | setMuted (on : Bool)
  | stopAudio
  | audioInfo
  | setDevice (buffered : Option Nat) (failAppend failInit : Option Bool)
  | playerTime (time : T)
  | playerSeek (time : T)
  | playerRate (rate : T)
  | playerState (state : PlaybackState)
  | stopRunner

inductive EngineEvent (T : Type) where
  | status (state : PlaybackState)
  | seek (time : T)
  | ready (state : ReadyState)
  | demuxError (error : MediaError)
  | decode (event : DecodeEvent T)
  | device (event : DeviceEvent T)

structure AppendOutcome where
  track : Nat
  number : Nat
  success : Bool
  onRunner : Bool

inductive EngineResult (T : Type) where
  | nothing
  | count (n : Nat)
  | flag (b : Bool)
  | frames (encoded : List (EncodedFrame T)) (decoded : List (DecodedFrame T))
  | drawn (pts : Option T) (delay : T) (quality : VideoQuality)
  | audioInfo (volume : T) (muted : Bool) (clients : Nat)

structure EngineAnswer (T : Type) where
  result : EngineResult T
  log : List (String × EngineEvent T)
  workers : List (String × Rest)
  now : Nat
  state : PlaybackState
  time : T
  encoded : List (Nat × List (TimeRange T))
  decoded : List (Nat × List (TimeRange T))
  decodedCounts : List Nat
  outcomes : List AppendOutcome
  ready : Option ReadyState
  /-- Bytes written to the device and times that it was opened. -/
  device : Option (Nat × Nat)

/-! ## The stage -/

inductive EngineClient where
  | decode (track : Nat)
  | audio
  | video
  deriving DecidableEq, Repr

structure TrackSetup where
  stream : Stream
  demux : Bool
  decode : Bool
  /-- Errors of its workers are errors of the pipeline. -/
  fatal : Bool
  /-- Nothing is heard of its decode worker. -/
  silent : Bool
  ring : Option Keyring

inductive DeviceKind where
  | manual | simulated
  deriving DecidableEq, Repr

structure AudioSetup where
  device : DeviceKind
  /-- Follow a player that is set by hand, and not the pipeline. -/
  scriptedPlayer : Bool

structure EngineSetup (T : Type) where
  settings : PipelineSettings T
  startNanos : Nat
  runner : Bool
  tracks : List TrackSetup
  monitor : Bool
  audio : Option AudioSetup

abbrev StageDecoder (T : Type) := ScriptedDecoder (EngineCommand T) T

structure Track (T : Type) where
  setup : TrackSetup
  ring : Option Keyring
  demux : Option (DemuxWorker (SegmentDemuxer T) Nat T)
  decode : Option (DecodeWorker (StageDecoder T) T)
  /-- The decode worker's registration with the pipeline. -/
  registration : Option Nat
  appends : Nat
  decodedCount : Nat

structure AudioStage (T : Type) where
  renderer : AudioRenderer (ScriptedDevice T) T
  scriptedPlayer : Bool
  registration : Option Nat

structure VideoStage (T : Type) where
  renderer : VideoRenderer T
  registration : Option Nat
  input : Option Nat

structure EngineStage (T : Type) where
  settings : PipelineSettings T
  clock : Nat
  pipeline : Pipeline T
  clients : Clients EngineClient
  store : BufferStore T
  tracks : List (Track T)
  monitor : Option (Monitor T)
  /-- The script has stopped a monitor whose loop is over. -/
  monitorShownParked : Bool
  override : Option (List (TimeRange T) × List (TimeRange T))
  audio : Option (AudioStage T)
  player : ScriptedPlayer EngineClient T
  video : VideoStage T
  /-- Whether the task runner works, if outcomes go through one. -/
  runner : Option Bool
  /-- When sleeping workers fell asleep. -/
  asleepSince : List (WorkerId × Nat)
  log : List (String × EngineEvent T)
  outcomes : List AppendOutcome

namespace EngineStage

variable {T : Type} [MediaTime T] [TimeWord T]

/-! ### Making known -/

def record (s : EngineStage T) (thread : String) (e : EngineEvent T) : EngineStage T :=
  { s with log := s.log ++ [(thread, e)] }

def modifyTrack (s : EngineStage T) (i : Nat) (f : Track T → Track T) : EngineStage T :=
  { s with tracks := s.tracks.modify i f }

/-- Moves what the device has recorded to the thread that acted on it. -/
def drainDevice (s : EngineStage T) (thread : String) : EngineStage T :=
  match s.audio with
  | none => s
  | some a =>
    let device := a.renderer.device
    { s with
      audio := some { a with renderer := { a.renderer with device := { device with log := [] } } }
      log := s.log ++ device.log.map fun e => (thread, .device e) }

def setRenderer (s : EngineStage T) (r : AudioRenderer (ScriptedDevice T) T) : EngineStage T :=
  { s with audio := s.audio.map fun a => { a with renderer := r } }

def tell (s : EngineStage T) (client : EngineClient) (notice : Notice T) : EngineStage T :=
  match client, notice with
  | .decode i, .seeking =>
    match s.tracks[i]?.bind Track.decode with
    | some w =>
      let (w, store) := w.onSeek s.store
      { s.modifyTrack i ({ · with decode := some w }) with store }
    | none => s
  | .video, .seeking => { s with video := { s.video with renderer := s.video.renderer.onSeeking } }
  | .audio, _ =>
    match s.audio with
    | some a => s.setRenderer a.renderer.requestResync
    | none => s
  | _, _ => s

def deliver (thread : String) (s : EngineStage T) : Delivery EngineClient T → EngineStage T
  | .ownerSeeking => s.record thread (.seek (s.pipeline.currentTime s.clock))
  | .ownerState new => s.record thread (.status new)
  | .client client notice => s.tell client notice

def call (s : EngineStage T) (thread : String) (c : PipelineCall T) : EngineStage T :=
  let (pipeline, notices) := s.pipeline.call s.clock c
  (notices.flatMap (Notice.deliveries s.clients)).foldl (deliver thread) { s with pipeline }

def changePlayer (s : EngineStage T) (view : PlayerView T) (notice : Option (Notice T)) :
    EngineStage T :=
  let s := { s with player := { s.player with view } }
  match notice with
  | some notice => s.player.clients.toList.foldl (fun s c => s.tell c notice) s
  | none => s

/-! ### Outcomes of worker steps -/

def outcome (track : Nat) (s : EngineStage T) (number : Nat) (success : Bool) : EngineStage T :=
  match s.runner with
  | some false => s
  | runner => { s with outcomes := s.outcomes ++ [⟨track, number, success, runner.isSome⟩] }

def demuxEvent (track : Nat) (thread : String) (s : EngineStage T) :
    DemuxEvent Nat → EngineStage T
  | .done number success => s.outcome track number success
  | .failed e =>
    let s := s.record thread (.demuxError e)
    if (s.tracks[track]?.map (·.setup.fatal)).getD false then s.call thread .fail else s

def decodeEvent (track : Nat) (thread : String) (s : EngineStage T) (e : DecodeEvent T) :
    EngineStage T :=
  match s.tracks[track]? with
  | none => s
  | some t =>
    match e with
    | .reset | .decode _ => s.record thread (.decode e)
    | .decoded frame _ =>
      if frame.isSome then
        s.modifyTrack track fun t => { t with decodedCount := t.decodedCount + 1 }
      else s
    | .seekDone | .waitingForKey => if t.setup.silent then s else s.record thread (.decode e)
    | .failed _ =>
      if t.setup.silent then s
      else
        let s := s.record thread (.decode e)
        if t.setup.fatal then s.call thread .fail else s

/-! ### Commands -/

def withDemux (s : EngineStage T) (i : Nat)
    (f : DemuxWorker (SegmentDemuxer T) Nat T →
      DemuxWorker (SegmentDemuxer T) Nat T × List (DemuxEvent Nat))
    (thread : String) : EngineStage T :=
  match s.tracks[i]?.bind Track.demux with
  | some w =>
    let (w, events) := f w
    events.foldl (demuxEvent i thread) (s.modifyTrack i ({ · with demux := some w }))
  | none => s

def withDecode (s : EngineStage T) (i : Nat)
    (f : DecodeWorker (StageDecoder T) T → DecodeWorker (StageDecoder T) T) : EngineStage T :=
  s.modifyTrack i fun t => { t with decode := t.decode.map f }

/-- Acts on the renderer; what the device is told is the doing of `thread`. -/
def withAudio (s : EngineStage T) (thread : String)
    (f : AudioRenderer (ScriptedDevice T) T → AudioRenderer (ScriptedDevice T) T) :
    EngineStage T :=
  match s.audio with
  | some a => (s.setRenderer (f a.renderer)).drainDevice thread
  | none => s

def followVideo (s : EngineStage T) (on : Bool) : EngineStage T :=
  let clients := match s.video.registration with
    | some id => s.clients.remove id
    | none => s.clients
  let (registration, clients) :=
    if on then let (id, clients) := clients.add .video; (some id, clients) else (none, clients)
  { s with clients, video := { s.video with registration } }

/-- Clients of the player that the audio renderer follows. -/
def audioClients (s : EngineStage T) (a : AudioStage T) : Clients EngineClient :=
  if a.scriptedPlayer then s.player.clients else s.clients

def setAudioClients (s : EngineStage T) (a : AudioStage T) (clients : Clients EngineClient) :
    EngineStage T :=
  if a.scriptedPlayer then { s with player := { s.player with clients } } else { s with clients }

def registerAudio (s : EngineStage T) (on : Bool) : EngineStage T :=
  match s.audio with
  | none => s
  | some a =>
    let clients := s.audioClients a
    let clients := match a.registration with
      | some id => clients.remove id
      | none => clients
    let (registration, clients) :=
      if on then let (id, clients) := clients.add .audio; (some id, clients) else (none, clients)
    { s.setAudioClients a clients with audio := some { a with registration } }

def release (s : EngineStage T) : WorkerId → EngineStage T
  | .demux i => s.modifyTrack i fun t => { t with demux := t.demux.map (·.wake) }
  | .decode i => s.modifyTrack i fun t => { t with decode := t.decode.map (·.wake) }
  | .monitor => { s with monitor := s.monitor.map (·.wake) }
  | .audio => { s with audio := s.audio.map fun a => { a with renderer := a.renderer.wake } }

/-- The key is there for whoever holds the ring. -/
def addKey (s : EngineStage T) (i : Nat) (key : Bytes) : EngineStage T :=
  s.modifyTrack i fun t =>
    { t with
      ring := t.ring.map (·.addKey key)
      decode := t.decode.map (·.mapRing (·.addKey key)) }

def stopDecoder (s : EngineStage T) (i : Nat) : EngineStage T :=
  let clients := match s.tracks[i]?.bind Track.registration with
    | some id => s.clients.remove id
    | none => s.clients
  let s := { s.modifyTrack i ({ · with registration := none }) with clients }
  (s.withDecode i (·.requestStop)).release (.decode i)

/-- What a command does at once, on a thread. -/
def act (s : EngineStage T) (thread : String) : EngineCommand T → EngineStage T
  | .call c => s.call thread c
  | .advance nanos => { s with clock := s.clock + nanos }
  | .setDemuxer i on =>
    s.withDemux i (fun w =>
      (w.setDemuxer (if on then s.tracks[i]?.map (⟨·.setup.stream⟩) else none), [])) thread
  | .append i a =>
    let number := (s.tracks[i]?.map Track.appends).getD 0
    (s.modifyTrack i ({ · with appends := number + 1 })).withDemux i
      (·.append ⟨a.data, a.offset, a.window, number⟩) thread
  | .resetDemuxer i => s.withDemux i (·.reset) thread
  | .stopDemuxer i => (s.withDemux i (fun w => (w.requestStop, [])) thread).release (.demux i)
  | .push i frames => { s with store := s.store.editEncoded i (·.addAll frames) }
  | .clearEncoded i => { s with store := s.store.editEncoded i (·.clear) }
  | .removeEncoded i start stop => { s with store := s.store.editEncoded i (·.remove start stop) }
  | .clearDecoded i => { s with store := s.store.editDecoded i (·.clear) }
  | .pushDecoded i frames => { s with store := s.store.editDecoded i (·.addAll frames) }
  | .setDecoder i decoder => s.withDecode i (·.setDecoder decoder)
  | .attach i => s.withDecode i (·.attach i i)
  | .detach i => s.withDecode i (·.detach)
  | .setRing i on =>
    s.withDecode i (·.setRing (if on then s.tracks[i]?.bind Track.ring else none))
  | .addKey i key => s.addKey i key
  | .decoderSeek i => s.tell (.decode i) .seeking
  | .stopDecoder i => s.stopDecoder i
  | .startMonitor => { s with monitor := s.monitor.map (·.start) }
  | .stopMonitor =>
    { s with monitor := s.monitor.map (·.requestStop.wake), monitorShownParked := true }
  | .shutDownMonitor =>
    { s with monitor := s.monitor.map (·.requestStop.requestShutdown.wake)
             monitorShownParked := false }
  | .overrideRanges ranges => { s with override := ranges }
  | .followVideo on => s.followVideo on
  | .attachVideo i => { s with video := { s.video with input := some i } }
  | .followAudio on => (s.registerAudio on).withAudio thread (·.setPlayer on)
  | .attachAudio i => s.withAudio thread (·.attach i)
  | .detachAudio => s.withAudio thread (·.detach s.clock)
  | .setVolume v => s.withAudio thread (·.setVolume s.clock v)
  | .setMuted on => s.withAudio thread (·.setMuted s.clock on)
  | .stopAudio => ((s.withAudio thread (·.requestStop)).release .audio).registerAudio false
  | .setDevice buffered failAppend failInit =>
    s.withAudio thread fun r =>
      let d := r.device
      { r with device := { d with
          buffered := buffered.getD d.buffered
          failAppend := failAppend.getD d.failAppend
          failInit := failInit.getD d.failInit } }
  | .playerTime time => s.changePlayer { s.player.view with time } none
  | .playerSeek time => s.changePlayer { s.player.view with time } (some .seeking)
  | .playerRate rate =>
    s.changePlayer { s.player.view with rate } (some (.rateChanged s.player.view.rate rate))
  | .playerState state =>
    s.changePlayer { s.player.view with state }
      (some (.stateChanged s.player.view.state state))
  | .stopRunner => { s with runner := s.runner.map fun _ => false }
  | .wake _ _ | .run _ | .listFrames _ | .draw | .audioInfo => s

/-! ### Workers -/

def workers (s : EngineStage T) : List WorkerId :=
  (s.tracks.zipIdx.flatMap fun (t, i) =>
    (if t.demux.isSome then [.demux i] else []) ++ (if t.decode.isSome then [.decode i] else [])) ++
  (if s.monitor.isSome then [.monitor] else []) ++ (if s.audio.isSome then [.audio] else [])

def restOf (s : EngineStage T) : WorkerId → Rest
  | .demux i => ((s.tracks[i]?.bind Track.demux).map DemuxWorker.rest).getD .exited
  | .decode i => ((s.tracks[i]?.bind Track.decode).map DecodeWorker.rest).getD .exited
  | .monitor => (s.monitor.map Monitor.rest).getD .exited
  | .audio => (s.audio.map (·.renderer.rest)).getD .exited

def monitorView (s : EngineStage T) : MonitorView T where
  buffered := (s.override.map Prod.fst).getD
    (TimeRange.intersection (s.store.encoded.map FrameBuffer.ranges))
  decoded := (s.override.map Prod.snd).getD
    (TimeRange.intersection (s.store.decoded.map FrameBuffer.ranges))
  time := s.pipeline.currentTime s.clock
  duration := s.pipeline.duration
  state := s.pipeline.status

def stepDemux (s : EngineStage T) (i : Nat) (thread : String) : EngineStage T :=
  match s.tracks[i]?.bind Track.demux with
  | none => s
  | some w =>
    let (w, output, events) :=
      w.step s.settings (s.pipeline.currentTime s.clock) (s.store.encodedAt i)
    let s := { s.modifyTrack i ({ · with demux := some w }) with
               store := s.store.editEncoded i fun _ => output }
    events.foldl (demuxEvent i thread) s

/-- The commands that the decoder runs on the spot when it is called. -/
def takeDuring (s : EngineStage T) (i : Nat) : List (EngineCommand T) × EngineStage T :=
  match s.tracks[i]?.bind Track.decode with
  | some w =>
    match w.phase with
    | .decoding l snapshot (some f) =>
      let (commands, decoder) := l.decoder.takeDuring f.pts
      let w := { w with phase := .decoding { l with decoder } snapshot (some f) }
      (commands, s.modifyTrack i ({ · with decode := some w }))
    | _ => ([], s)
  | none => ([], s)

def stepDecode (s : EngineStage T) (i : Nat) (thread : String) : EngineStage T :=
  let (commands, s) := s.takeDuring i
  let s := commands.foldl (fun s c => s.act thread c) s
  match s.tracks[i]?.bind Track.decode with
  | none => s
  | some w =>
    let (w, store, events) :=
      w.step s.settings (s.pipeline.currentTime s.clock) s.pipeline.duration s.store
    events.foldl (decodeEvent i thread)
      { s.modifyTrack i ({ · with decode := some w }) with store }

def stepMonitor (s : EngineStage T) (thread : String) : EngineStage T :=
  match s.monitor with
  | none => s
  | some m =>
    let (m, events) := m.step s.settings s.monitorView
    events.foldl
      (fun s e => match e with
        | .call c => s.call thread c
        | .ready state => s.record thread (.ready state))
      { s with monitor := some m }

def stepAudio (s : EngineStage T) (thread : String) : EngineStage T :=
  match s.audio with
  | none => s
  | some a =>
    let view := if a.scriptedPlayer then s.player.view else s.pipeline.view s.clock
    let player := if a.renderer.following then some view else none
    let frames := a.renderer.input.map s.store.decodedAt
    s.withAudio thread (·.step s.settings s.clock player frames view.time)

/-- One step of a worker. A worker that falls asleep is noted with the time. -/
def stepWorker (s : EngineStage T) (w : WorkerId) : EngineStage T :=
  let s := match w with
    | .demux i => s.stepDemux i w.name
    | .decode i => s.stepDecode i w.name
    | .monitor => s.stepMonitor w.name
    | .audio => s.stepAudio w.name
  match s.restOf w with
  | .sleeping _ => { s with asleepSince := (w, s.clock) :: s.asleepSince.filter (·.1 != w) }
  | _ => s

/-- Lets all workers go on until they rest. -/
def settle : Nat → EngineStage T → EngineStage T
  | 0, s => s
  | fuel + 1, s =>
    match s.workers.find? (fun w => s.restOf w == .running) with
    | some w => settle fuel (s.stepWorker w)
    | none => s

/-- More steps than workers take before they rest. -/
def settleFuel : Nat := 1099511627776

/-- A demux worker that was stopped answers for what is left in its queue once it is over. -/
def finishStops (s : EngineStage T) : EngineStage T :=
  (List.range s.tracks.length).foldl
    (fun s i => s.withDemux i
      (fun w => if w.shutdown && w.rest == .exited then w.cancelQueue else (w, [])) "main")
    s

def settled (s : EngineStage T) : EngineStage T := (settle settleFuel s).finishStops

/-! ### Waking workers -/

def isAsleep (s : EngineStage T) (w : WorkerId) : Bool :=
  match s.restOf w with
  | .sleeping _ => true
  | _ => false

/-- Releases a worker a number of times, if it sleeps, and counts how often it did. -/
def wakeTimes (w : WorkerId) : Nat → EngineStage T → Nat × EngineStage T
  | 0, s => (0, s)
  | n + 1, s =>
    if s.isAsleep w then
      let (k, s) := wakeTimes w n (s.release w).settled
      (k + 1, s)
    else wakeTimes w n s

/-- When a sleeping worker is due, if no sleep is shorter than `least`. -/
def dueAt (s : EngineStage T) (least : Nat) (w : WorkerId) : Option Nat :=
  match s.restOf w with
  | .sleeping nanos => some ((s.asleepSince.lookup w).getD 0 + max least nanos)
  | _ => none

/-- The sleeping worker that is due first; of several, the one created first. -/
def firstDue (s : EngineStage T) (least : Nat) : Option (WorkerId × Nat) :=
  s.workers.foldl
    (fun best w => match s.dueAt least w, best with
      | none, _ => best
      | some due, none => some (w, due)
      | some due, some (_, least) => if due < least then some (w, due) else best)
    none

def runUntil (least target : Nat) : Nat → EngineStage T → Nat × EngineStage T
  | 0, s => (0, s)
  | fuel + 1, s =>
    match s.firstDue least with
    | some (w, due) =>
      if target < due then (0, s)
      else
        let s := { s with clock := max s.clock due }
        let (k, s) := runUntil least target fuel (s.release w).settled
        (k + 1, s)
    | none => (0, s)

def maxWakes : Nat := 3000

/-- Lets the clock run; no sleep is shorter than `least`. -/
def run (s : EngineStage T) (least nanos : Nat) : Nat × EngineStage T :=
  let target := s.clock + nanos
  let (k, s) := runUntil least target maxWakes s
  (k, { s with clock := target })

/-! ### Answers -/

def draw (s : EngineStage T) : EngineResult T × EngineStage T :=
  let player := s.video.registration.map fun _ => s.pipeline.view s.clock
  let (frame, delay, renderer) :=
    s.video.renderer.draw player (s.video.input.map s.store.decodedAt)
  (.drawn (frame.map DecodedFrame.pts) delay renderer.quality,
    { s with video := { s.video with renderer } })

def audioInfo (s : EngineStage T) : EngineResult T :=
  match s.audio with
  | some a => .audioInfo a.renderer.volume a.renderer.muted s.player.clients.entries.length
  | none => .nothing

def listFrames (s : EngineStage T) (i : Nat) : EngineResult T :=
  let encoded := s.store.encodedAt i
  let decoded := s.store.decodedAt i
  .frames (encoded.walk MediaTime.negInf (encoded.length + 3))
    (decoded.walk MediaTime.negInf (decoded.length + 3))

def execute (s : EngineStage T) (c : EngineCommand T) : EngineResult T × EngineStage T :=
  match c with
  | .wake name times =>
    match s.workers.find? (·.name == name) with
    | some w => let (k, s) := wakeTimes w times s; (.count k, s)
    | none => (.count 0, s)
  | .run nanos => let (k, s) := s.run 0 nanos; (.count k, s)
  | .listFrames i => (s.listFrames i, s)
  | .draw => s.draw
  | .audioInfo => (s.audioInfo, s)
  | .stopAudio =>
    let s := (s.act "main" c).settled
    (.flag (s.restOf .audio == .exited), s)
  | _ => (.nothing, (s.act "main" c).settled)

def shownRest (s : EngineStage T) (w : WorkerId) : Rest :=
  match w, s.restOf w with
  | .monitor, .exited => if s.monitorShownParked then .parked else .exited
  | _, rest => rest

def deviceCounts (s : EngineStage T) : Option (Nat × Nat) :=
  s.audio.map fun a =>
    match a.renderer.device.playout with
    | some p => (p.bytesWritten, p.inits)
    | none => (0, 0)

def answer (s : EngineStage T) (result : EngineResult T) : EngineAnswer T where
  result
  log := s.log
  workers := s.workers.map fun w => (w.name, s.shownRest w)
  now := s.clock
  state := s.pipeline.status
  time := s.pipeline.currentTime s.clock
  encoded := s.store.encoded.map fun b => (b.length, b.ranges)
  decoded := s.store.decoded.map fun b => (b.length, b.ranges)
  decodedCounts := s.tracks.map Track.decodedCount
  outcomes := s.outcomes
  ready := s.monitor.map Monitor.ready
  device := s.deviceCounts

def step (s : EngineStage T) (c : EngineCommand T) : EngineAnswer T × EngineStage T :=
  let (result, s) := s.execute c
  (s.answer result, { s with log := [], outcomes := [] })

/-! ### The start -/

def newTrack (t : TrackSetup) : Track T where
  setup := t
  ring := t.ring
  demux := if t.demux then some .new else none
  decode := if t.decode then some .new else none
  registration := none
  appends := 0
  decodedCount := 0

def newAudio (now : Nat) (a : AudioSetup) : AudioStage T where
  renderer := .new
    { playout := if a.device = .simulated then some (.new now) else none
      buffered := 0, failAppend := false, failInit := false, log := [] }
  scriptedPlayer := a.scriptedPlayer
  registration := none

/-- Decode workers are clients of the pipeline from the start. -/
def registerDecoders (s : EngineStage T) : EngineStage T :=
  (List.range s.tracks.length).foldl
    (fun s i =>
      if (s.tracks[i]?.bind Track.decode).isSome then
        let (id, clients) := s.clients.add (.decode i)
        { s.modifyTrack i ({ · with registration := some id }) with clients }
      else s)
    s

def new (e : EngineSetup T) : EngineStage T :=
  { settings := e.settings
    clock := e.startNanos
    pipeline := .new e.startNanos
    clients := .empty
    store := .new e.tracks.length
    tracks := e.tracks.map newTrack
    monitor := if e.monitor then some .new else none
    monitorShownParked := false
    override := none
    audio := e.audio.map (newAudio e.startNanos)
    player := ⟨⟨0, 1, .paused⟩, .empty⟩
    video := ⟨.new, none, none⟩
    runner := if e.runner then some true else none
    asleepSince := []
    log := []
    outcomes := [] : EngineStage T }.registerDecoders

end EngineStage

def runEngine {T : Type} [MediaTime T] [TimeWord T] (setup : EngineSetup T)
    (commands : List (EngineCommand T)) : List (EngineAnswer T) :=
  let start := { (EngineStage.new setup).settled with log := [], outcomes := [] }
  (commands.foldl (fun (s, answers) c => let (a, s) := s.step c; (s, a :: answers))
    (start, [])).2.reverse

end MediaPipeline.Script
