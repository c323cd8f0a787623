import MediaPipeline.Clock
import MediaPipeline.Task.Runner

/-!
# Scripted task runners

A task runner on a hand-driven clock. Between the commands a barrier holds the worker inside a task.
A run lifts it, lets the worker go on until it is idle, and places a new one. A run also adds a
sweep, a timer that fires behind everything that is ready and is added anew for as long as tasks of
the script have run since.
-/

namespace MediaPipeline.Script

inductive TaskAct where
  | timer (label : String) (delayMicros : Nat) (acts : List TaskAct)
  | repeated (label : String) (delayMicros : Nat) (acts : List TaskAct)
  | task (label : String) (priority : TaskPriority) (result : Int) (acts : List TaskAct)
  /-- By the newest task of a label; `id` is for a label that is not known. -/
  | cancel (label : Option String) (id : Nat)
  | advance (micros : Nat)
  | setClock (micros : Nat)
  | probe
  | waitFinished
  | stopSelf

inductive TaskCommand where
  | act (act : TaskAct)
  | run
  | finish
  | stop
  | handle (label : String)

inductive TaskAnswer where
  | nothing
  | id (id : Nat)
  | state (pending onWorker running : Bool) (name : String)
  | returned
  | pending (pending : Bool)
  | handle (id : Nat) (done : Bool) (result : Except ServiceError Int)

inductive TaskLog where
  | run (label : String) (micros : Nat)
  | act (label : String) (answer : TaskAnswer)
  | drop (label : String)

structure TaskReport where
  answer : TaskAnswer
  log : List TaskLog
  running : Bool

inductive StageTask where
  | barrier
  | sweep
  | script (label : String) (result : Int) (acts : List TaskAct)

structure LabelledTask where
  id : Nat
  hasHandle : Bool

structure TaskStage where
  clock : ManualClock
  runner : TaskRunner StageTask Int
  labels : List (String × LabelledTask)
  /-- Tasks of the script that have been run. -/
  started : List Nat
  /-- One has been run since the last sweep was added. -/
  busySinceSweep : Bool
  log : List TaskLog

namespace TaskStage

def now (s : TaskStage) : Duration := .ofNanos s.clock.now

def record (s : TaskStage) (e : TaskLog) : TaskStage := { s with log := s.log ++ [e] }

/-- Only tasks of the script that were never run are noted when they are dropped. -/
def noteDropped (s : TaskStage) : RunnerEvent StageTask → TaskStage
  | .dropped ⟨id, _, _, _, _, _, .script label _ _⟩ =>
    if id ∈ s.started then s else s.record (.drop label)
  | _ => s

def added (s : TaskStage) (label : String) (hasHandle : Bool)
    (r : Nat × TaskRunner StageTask Int × List (RunnerEvent StageTask)) :
    TaskAnswer × TaskStage :=
  let (id, runner, events) := r
  let s := { s with runner, labels := (label, ⟨id, hasHandle⟩) :: s.labels }
  (.id id, events.foldl noteDropped s)

def cancel (s : TaskStage) (id : Nat) : TaskStage :=
  let (runner, events) := s.runner.cancel id
  events.foldl noteDropped { s with runner }

def act (s : TaskStage) (onWorker : Bool) : TaskAct → TaskAnswer × TaskStage
  | .timer label delay acts =>
    s.added label false (s.runner.addTimer s.now (.ofNanos (delay * 1000)) (.script label 0 acts))
  | .repeated label delay acts =>
    s.added label false
      (s.runner.addRepeatedTimer s.now (.ofNanos (delay * 1000)) (.script label 0 acts))
  | .task label priority result acts =>
    s.added label true (s.runner.addTask s.now priority label (.script label result acts))
  | .cancel label id =>
    (.nothing, s.cancel (((label.bind (s.labels.lookup ·)).map LabelledTask.id).getD id))
  | .advance micros => (.nothing, { s with clock := s.clock.advance (micros * 1000) })
  | .setClock micros => (.nothing, { s with clock := s.clock.set (micros * 1000) })
  | .probe => (.state s.runner.hasPendingWork onWorker s.runner.running s.runner.name, s)
  | .waitFinished => (.returned, s)
  | .stopSelf => (.nothing, { s with runner := s.runner.requestStop })

/-! ## The worker -/

def addSweep (s : TaskStage) : TaskStage :=
  let (_, runner, _) := s.runner.addTimer s.now 0 .sweep
  { s with runner, busySinceSweep := false }

def runBody (s : TaskStage) (id : Nat) : StageTask → TaskStage
  | .barrier => s
  | .sweep =>
    let s := if s.busySinceSweep then s.addSweep else s
    { s with runner := s.runner.bodyReturned 0 }
  | .script label result acts =>
    let s := { s with started := id :: s.started, busySinceSweep := true }
    let s := s.record (.run label s.clock.micros)
    let s := acts.foldl
      (fun s a => let (answer, s) := s.act true a; s.record (.act label answer)) s
    { s with runner := s.runner.bodyReturned result }

/-- Lets the worker go on until it waits, is held by a barrier or has ended. -/
def settle : Nat → TaskStage → TaskStage
  | 0, s => s
  | fuel + 1, s =>
    match s.runner.phase with
    | .executing ⟨_, _, _, _, _, _, .barrier⟩ => s
    | .executing t => settle fuel (s.runBody t.id t.body)
    | .exited | .failed => s
    | .idle =>
      if s.runner.notified then
        let (runner, events) := s.runner.step s.now false
        settle fuel (events.foldl noteDropped { s with runner })
      else s
    | _ =>
      let (runner, events) := s.runner.step s.now false
      settle fuel (events.foldl noteDropped { s with runner })

/-- More steps than a worker takes before it rests. -/
def settleFuel : Nat := 1099511627776

def settled (s : TaskStage) : TaskStage := settle settleFuel s

def placeBarrier (s : TaskStage) : TaskStage :=
  let (_, runner, _) := s.runner.addTask s.now .immediate "barrier" .barrier
  { s with runner }.settled

def liftBarrier (s : TaskStage) : TaskStage := { s with runner := s.runner.bodyReturned 0 }.settled

def pendingAnswer (s : TaskStage) : TaskAnswer := .pending s.runner.hasPendingWork

/-! ## Commands -/

def handle (s : TaskStage) (label : String) : TaskAnswer :=
  match s.labels.lookup label with
  | some ⟨id, true⟩ =>
    match s.runner.outcomeOf id with
    | some outcome =>
      .handle id (match outcome with | .pending => false | _ => true)
        (TaskRunner.poll outcome label)
    | none => .nothing
  | _ => .nothing

def execute (s : TaskStage) : TaskCommand → TaskAnswer × TaskStage
  | .act a => s.act false a
  | .run =>
    if s.runner.running then
      let s := s.addSweep.liftBarrier
      (s.pendingAnswer, s.placeBarrier)
    else (.nothing, s)
  | .finish =>
    if s.runner.running then
      let s := s.liftBarrier
      let s := { s with runner := (IdleWait.run s.runner).1 }
      (s.pendingAnswer, s.placeBarrier)
    else (.nothing, s)
  | .stop => (.nothing, { s with runner := s.runner.requestStop }.liftBarrier)
  | .handle label => (s.handle label, s)

def step (s : TaskStage) (c : TaskCommand) : TaskReport × TaskStage :=
  let (answer, s) := s.execute c
  (⟨answer, s.log, s.runner.running⟩, { s with log := [] })

def new (name : String) : TaskStage :=
  { clock := ⟨0⟩, runner := .new name, labels := [], started := [], busySinceSweep := false,
    log := [] : TaskStage }.placeBarrier

end TaskStage

def runTasks (name : String) (commands : List TaskCommand) : List TaskReport :=
  (commands.foldl (fun (s, reports) c => let (r, s) := s.step c; (s, r :: reports))
    (TaskStage.new name, [])).2.reverse

end MediaPipeline.Script
