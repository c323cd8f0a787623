import MediaPipeline.Clock
import MediaPipeline.Pipeline.Clients
import MediaPipeline.Video.Renderer

/-!
# Scripted players

A pipeline on a hand-driven clock, clients that record what they are told, and a video renderer that
follows the pipeline. A script acts on them one command at a time.
-/

namespace MediaPipeline.Script

inductive PlayerCommand (T : Type) where
  | call (call : PipelineCall T)
  | advance (nanos : Nat)
  | setClock (nanos : Nat)
  /-- Registers a client under a name; a silent one records nothing. -/
  | addClient (name : String) (silent : Bool)
  /-- Removes the newest client of that name; `id` is for a name that is not known. -/
  | removeClient (name : Option String) (id : Nat)
  | followPlayer (on : Bool)
  | attach (buffer : Nat)
  | detach
  | rendererSeeking
  | addFrames (buffer : Nat) (frames : List (DecodedFrame T))
  | removeFrames (buffer : Nat) (start stop : T)
  | setFillMode (name : String)
  | draw

/-- What a client records, or the owner of the pipeline hears. -/
inductive PlayerEvent (T : Type) where
  | status (state : PlaybackState)
  | seek (time : T)
  | client (name : String) (notice : Notice T)

structure Drawn (T : Type) where
  frame : Option (Numbered (DecodedFrame T))
  delay : T
  quality : VideoQuality

inductive PlayerResult (T : Type) where
  | nothing
  | number (n : Nat)
  | fillMode (mode : VideoFillMode)
  | drawn (d : Drawn T)

structure PlayerAnswer (T : Type) where
  result : PlayerResult T
  log : List (PlayerEvent T)
  state : PlaybackState
  time : T
  duration : Option T
  rate : T

inductive PlayerClient where
  | recorder (name : String)
  | silent
  | video
  deriving DecidableEq, Repr

structure PlayerStage (T : Type) where
  clock : ManualClock
  pipeline : Pipeline T
  clients : Clients PlayerClient
  names : List (String × Nat)
  video : VideoRenderer T
  /-- The renderer's registration, while it follows the pipeline. -/
  registration : Option Nat
  buffers : List (FrameBuffer (Numbered (DecodedFrame T)) T)
  attached : Option Nat
  framesMade : Nat

namespace PlayerStage

variable {T : Type} [MediaTime T]

def new (startNanos : Nat) : PlayerStage T :=
  let clock := ManualClock.set ⟨0⟩ startNanos
  { clock, pipeline := .new clock.now, clients := .empty, names := [], video := .new,
    registration := none, buffers := [.empty .pts, .empty .pts], attached := none,
    framesMade := 0 }

def deliver (s : PlayerStage T) : Delivery PlayerClient T → PlayerStage T × List (PlayerEvent T)
  | .ownerSeeking => (s, [.seek (s.pipeline.currentTime s.clock.now)])
  | .ownerState new => (s, [.status new])
  | .client (.recorder name) notice => (s, [.client name notice])
  | .client .silent _ => (s, [])
  | .client .video .seeking => ({ s with video := s.video.onSeeking }, [])
  | .client .video _ => (s, [])

def call (s : PlayerStage T) (c : PipelineCall T) : PlayerStage T × List (PlayerEvent T) :=
  let (pipeline, notices) := s.pipeline.call s.clock.now c
  let deliveries := notices.flatMap (Notice.deliveries s.clients)
  deliveries.foldl
    (fun (s, log) d => let (s, events) := s.deliver d; (s, log ++ events))
    ({ s with pipeline }, [])

def followPlayer (s : PlayerStage T) (on : Bool) : PlayerStage T :=
  let clients := match s.registration with
    | some id => s.clients.remove id
    | none => s.clients
  if on then
    let (id, clients) := clients.add .video
    { s with clients, registration := some id }
  else { s with clients, registration := none }

def buffer (s : PlayerStage T) (i : Nat) : FrameBuffer (Numbered (DecodedFrame T)) T :=
  s.buffers.getD i (.empty .pts)

def addFrames (s : PlayerStage T) (i : Nat) (frames : List (DecodedFrame T)) : PlayerStage T :=
  let numbered := frames.mapIdx fun k f => ⟨s.framesMade + k, f⟩
  { s with
    buffers := s.buffers.modify i (·.addAll numbered)
    framesMade := s.framesMade + frames.length }

def draw (s : PlayerStage T) : PlayerStage T × Drawn T :=
  let player := s.registration.map fun _ => s.pipeline.view s.clock.now
  let (frame, delay, video) := s.video.draw player (s.attached.map s.buffer)
  ({ s with video }, ⟨frame, delay, video.quality⟩)

def run (s : PlayerStage T) :
    PlayerCommand T → PlayerStage T × PlayerResult T × List (PlayerEvent T)
  | .call c => let (s, log) := s.call c; (s, .nothing, log)
  | .advance nanos => ({ s with clock := s.clock.advance nanos }, .nothing, [])
  | .setClock nanos => ({ s with clock := s.clock.set nanos }, .nothing, [])
  | .addClient name silent =>
    let (id, clients) := s.clients.add (if silent then .silent else .recorder name)
    ({ s with clients, names := (name, id) :: s.names }, .number id, [])
  | .removeClient name id =>
    let id := (name.bind (s.names.lookup ·)).getD id
    ({ s with clients := s.clients.remove id }, .nothing, [])
  | .followPlayer on => (s.followPlayer on, .nothing, [])
  | .attach i => ({ s with attached := some i }, .nothing, [])
  | .detach => ({ s with attached := none }, .nothing, [])
  | .rendererSeeking => ({ s with video := s.video.onSeeking }, .nothing, [])
  | .addFrames i frames =>
    let s := s.addFrames i frames
    (s, .number (s.buffer i).length, [])
  | .removeFrames i start stop =>
    let s := { s with buffers := s.buffers.modify i (·.remove start stop) }
    (s, .number (s.buffer i).length, [])
  | .setFillMode name =>
    let video := match VideoFillMode.ofName? name with
      | some fillMode => { s.video with fillMode }
      | none => s.video
    ({ s with video }, .fillMode video.fillMode, [])
  | .draw => let (s, d) := s.draw; (s, .drawn d, [])

def step (s : PlayerStage T) (c : PlayerCommand T) : PlayerStage T × PlayerAnswer T :=
  let (s, result, log) := s.run c
  (s, { result, log, state := s.pipeline.status,
        time := s.pipeline.currentTime s.clock.now,
        duration := s.pipeline.duration, rate := s.pipeline.rate })

end PlayerStage

/-- The answers of a script that starts at a wall time. -/
def runPlayer {T : Type} [MediaTime T] (startNanos : Nat) (commands : List (PlayerCommand T)) :
    List (PlayerAnswer T) :=
  (commands.foldl
    (fun (s, answers) c => let (s, a) := s.step c; (s, a :: answers))
    (PlayerStage.new startNanos, [])).2.reverse

end MediaPipeline.Script
