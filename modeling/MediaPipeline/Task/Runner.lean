import MediaPipeline.Error
import MediaPipeline.Task.Queue

/-!
# Task runners

One worker drains a task queue. Tasks may be added and cancelled from anywhere, also by a task that
runs; the result of a task that has one is kept for whoever holds its handle. After a stop nothing
more is run: what is queued is dropped, and the handles of dropped tasks are cancelled.

The worker's loop is cut into steps, and other threads may act between any two of them. A worker
that meets a timer without a fire time fails: it is gone, and what is queued stays.
-/

namespace MediaPipeline

/-- What is known of a task that has a handle. -/
inductive TaskOutcome (R : Type) where
  | pending
  | returned (result : R)
  | cancelled
  deriving DecidableEq, Repr

inductive RunnerPhase (B : Type) where
  /-- Holding the lock, about to look whether it should stop and to choose a task. -/
  | choosing
  /-- Out of the lock, in the body of a task. -/
  | executing (task : Task B)
  /-- The body is over; about to take the lock. -/
  | finishing (task : Task B)
  /-- Waiting for a change, at most until a timer is due. -/
  | idle
  /-- Out of the loop, dropping one by one what was not run. -/
  | dropping (tasks : List (Task B))
  | leaving
  | exited
  | failed
  deriving DecidableEq, Repr

inductive RunnerEvent (B : Type) where
  | started (task : Task B)
  /-- Dropped without having been run to its end. -/
  | dropped (task : Task B)
  deriving DecidableEq, Repr

/-- `B` is what tasks do and `R` what they return. -/
structure TaskRunner (B R : Type) where
  name : String
  queue : TaskQueue B
  running : Bool
  /-- The event that says that no work is pending. -/
  idleSignalled : Bool
  /-- There was a change since the worker began to wait. -/
  notified : Bool
  handles : List (Nat × TaskOutcome R)
  phase : RunnerPhase B
  deriving DecidableEq, Repr

namespace TaskRunner

variable {B R : Type}

def new (name : String) : TaskRunner B R where
  name
  queue := .empty
  running := true
  idleSignalled := false
  notified := false
  handles := []
  phase := .choosing

def hasPendingWork (r : TaskRunner B R) : Bool := r.queue.hasPendingWork

def outcomeOf (r : TaskRunner B R) (id : Nat) : Option (TaskOutcome R) := r.handles.lookup id

/-- Resolves a handle, unless it is resolved or there is none. -/
def resolve (r : TaskRunner B R) (id : Nat) (outcome : TaskOutcome R) : TaskRunner B R :=
  { r with handles := r.handles.map fun (i, o) =>
      (i, match o with
        | .pending => if i = id then outcome else o
        | _ => o) }

/-! ## The worker -/

/-- Chooses a task, or waits. Without pending work the runner is idle. -/
def choose (now : Duration) (r : TaskRunner B R) : TaskRunner B R × List (RunnerEvent B) :=
  if !r.running then
    ({ r with queue := { r.queue with tasks := [] }, phase := .dropping r.queue.tasks }, [])
  else
    match r.queue.takeNext? now with
    | none => ({ r with phase := .failed }, [])
    | some (some (t, queue)) => ({ r with queue, phase := .executing t }, [.started t])
    | some none =>
      ({ r with
          idleSignalled := r.idleSignalled || !r.hasPendingWork
          notified := false
          phase := .idle }, [])

/-- A task that repeats is queued again, its delay counted from now. -/
def finish (now : Duration) (r : TaskRunner B R) (t : Task B) : TaskRunner B R :=
  let (cancelled, queue) := r.queue.finishRunning
  if t.repeats && !cancelled then
    { r with queue := queue.push { t with start := now }, phase := .choosing }
  else { r with queue, phase := .choosing }

/-- One step of the loop, except inside a body. `due` says that the wait for a timer is over. -/
def step (now : Duration) (due : Bool) (r : TaskRunner B R) :
    TaskRunner B R × List (RunnerEvent B) :=
  match r.phase with
  | .choosing => r.choose now
  | .executing _ => (r, [])
  | .finishing t => (r.finish now t, [])
  | .idle => if r.notified || due then ({ r with phase := .choosing }, []) else (r, [])
  | .dropping (t :: ts) =>
    ({ r.resolve t.id .cancelled with phase := .dropping ts }, [.dropped t])
  | .dropping [] => ({ r with phase := .leaving }, [])
  | .leaving => ({ r with idleSignalled := true, phase := .exited }, [])
  | .exited | .failed => (r, [])

/-- The body that runs is over and returns a result. -/
def bodyReturned (r : TaskRunner B R) (result : R) : TaskRunner B R :=
  match r.phase with
  | .executing t => { r.resolve t.id (.returned result) with phase := .finishing t }
  | _ => r

/-! ## Acting on the runner -/

/-- Queues a task under the next number. After a stop it is dropped at once. -/
def enqueue (now : Duration) (r : TaskRunner B R) (priority : TaskPriority) (name : String)
    (delay : Duration) (repeats : Bool) (body : B) :
    Nat × TaskRunner B R × List (RunnerEvent B) :=
  let id := r.queue.nextId
  let t : Task B := ⟨id, priority, name, now, delay, repeats, body⟩
  let queue := { r.queue with nextId := id + 1 }
  if r.running then (id, { r with queue := queue.push t, notified := true }, [])
  else (id, { r with queue }, [.dropped t])

def addTimer (now : Duration) (r : TaskRunner B R) (delay : Duration) (body : B) :
    Nat × TaskRunner B R × List (RunnerEvent B) :=
  r.enqueue now .timer "timer" delay false body

/-- Runs `body` again and again, each time a delay after the end of the last. -/
def addRepeatedTimer (now : Duration) (r : TaskRunner B R) (delay : Duration) (body : B) :
    Nat × TaskRunner B R × List (RunnerEvent B) :=
  r.enqueue now .timer "repeated timer" delay true body

/-- Runs `body` once, as soon as its tier allows, and keeps what it returns. There are no such tasks
in the tier of timers. -/
def addTask (now : Duration) (r : TaskRunner B R) (priority : TaskPriority) (name : String)
    (body : B) :
    Nat × TaskRunner B R × List (RunnerEvent B) :=
  let priority := if priority = .timer then .internal else priority
  let outcome := if r.running then .pending else .cancelled
  let (id, r, events) := r.enqueue now priority name 0 false body
  (id, { r with handles := r.handles ++ [(id, outcome)] }, events)

/-- Drops a queued task; one that runs will not be queued again. -/
def cancel (r : TaskRunner B R) (id : Nat) : TaskRunner B R × List (RunnerEvent B) :=
  match r.queue.cancel id with
  | (some t, queue) => ({ r.resolve id .cancelled with queue }, [.dropped t])
  | (none, queue) => ({ r with queue }, [])

def requestStop (r : TaskRunner B R) : TaskRunner B R :=
  { r with running := false, notified := true }

def handleName (name : String) : String := "task:" ++ name

/-- What a handle gives without waiting: the result, or why there is none. -/
def poll (outcome : TaskOutcome R) (name : String) : Except ServiceError R :=
  match outcome with
  | .returned result => .ok result
  | .cancelled => .error (.cancelled (handleName name))
  | .pending => .error (.timeout (handleName name))

end TaskRunner

/-! ## Waiting until nothing is pending -/

/-- Where a thread is that waits until the runner has no pending work. -/
inductive IdleWait where
  | entering
  | resetting
  | testing
  | waiting
  | returned
  deriving DecidableEq, Repr

namespace IdleWait

variable {B R : Type}

def step (r : TaskRunner B R) : IdleWait → TaskRunner B R × IdleWait
  | entering => (r, if r.running then resetting else returned)
  | resetting => ({ r with idleSignalled := false }, testing)
  | testing => (r, if r.hasPendingWork && r.running then waiting else returned)
  | waiting => (r, if r.idleSignalled then returned else waiting)
  | returned => (r, returned)

def run (r : TaskRunner B R) : TaskRunner B R × IdleWait :=
  let (r, w) := step r entering
  let (r, w) := step r w
  let (r, w) := step r w
  step r w

end IdleWait

end MediaPipeline
