import MediaPipeline.Clock

/-!
# Task queues

A queue of tasks in tiers. Any task that is not a timer goes before every timer, the highest tier
first and in it the task added first. A timer is ready once its delay has passed; of the ready ones
that with the earliest fire time goes first, and of several that added first. A timer that would
fire later than any time leaves the queue without an answer.
-/

namespace MediaPipeline

/-- Tiers, lowest first. -/
inductive TaskPriority where
  | timer
  /-- The engine's own work. -/
  | internal
  /-- Events for the application. -/
  | events
  | immediate
  deriving DecidableEq, Repr

namespace TaskPriority

def tier : TaskPriority → Nat
  | timer => 0
  | internal => 1
  | events => 2
  | immediate => 3

end TaskPriority

/-- `B` is what a task does. -/
structure Task (B : Type) where
  id : Nat
  priority : TaskPriority
  name : String
  start : Duration
  delay : Duration
  repeats : Bool
  body : B
  deriving DecidableEq, Repr

namespace Task

variable {B : Type}

def fireTime? (t : Task B) : Option Duration := t.start.add? t.delay

/-- The fire time in nanoseconds, whether or not there is such a duration. -/
def fireNanos (t : Task B) : Nat := t.start.nanos + t.delay.nanos

def isMeasured (t : Task B) : Bool := t.priority != .timer || t.fireTime?.isSome

def isReady (now : Duration) (t : Task B) : Bool :=
  t.priority != .timer || decide (t.fireNanos ≤ now.nanos)

/-- Whether `t` goes before `u` when both are ready. -/
def runsBefore (t u : Task B) : Bool :=
  if t.priority ≠ u.priority then decide (u.priority.tier < t.priority.tier)
  else if t.priority = .timer then
    decide (t.fireNanos < u.fireNanos) || (t.fireNanos == u.fireNanos && decide (t.id < u.id))
  else decide (t.id < u.id)

end Task

structure RunningTask where
  id : Nat
  repeats : Bool
  /-- It will not be queued again. -/
  cancelled : Bool
  deriving DecidableEq, Repr

/-- The task that runs is not among the queued ones. -/
structure TaskQueue (B : Type) where
  tasks : List (Task B)
  nextId : Nat
  running : Option RunningTask
  deriving DecidableEq, Repr

namespace TaskQueue

variable {B : Type}

def empty : TaskQueue B := ⟨[], 0, none⟩

/-- Some task that runs only once is queued or runs. -/
def hasPendingWork (q : TaskQueue B) : Bool :=
  q.tasks.any (! ·.repeats) || q.running.any (! ·.repeats)

/-- The ready task that goes first, and the others in their order. -/
def select (now : Duration) : List (Task B) → Option (Task B × List (Task B))
  | [] => none
  | t :: ts =>
    match select now ts with
    | none => if t.isReady now then some (t, ts) else none
    | some (best, rest) =>
      if t.isReady now && !best.runsBefore t then some (t, ts) else some (best, t :: rest)

/-- Takes the ready task that goes first out of the queue, if one is ready. The fire time of every
queued timer is looked at on the way; without one of them there is no answer. -/
def takeNext? (now : Duration) (q : TaskQueue B) : Option (Option (Task B × TaskQueue B)) :=
  if q.tasks.all Task.isMeasured then
    some ((select now q.tasks).map fun (t, tasks) =>
      (t, { q with tasks, running := some ⟨t.id, t.repeats, false⟩ }))
  else none

def push (q : TaskQueue B) (t : Task B) : TaskQueue B := { q with tasks := q.tasks ++ [t] }

/-- Takes out a queued task; one that runs is not queued again. -/
def cancel (q : TaskQueue B) (id : Nat) : Option (Task B) × TaskQueue B :=
  let running := q.running.map fun r => if r.id = id then { r with cancelled := true } else r
  (q.tasks.find? (·.id = id),
    { q with running, tasks := q.tasks.eraseP (·.id = id) })

/-- The task that ran is over. Says whether it was cancelled meanwhile. -/
def finishRunning (q : TaskQueue B) : Bool × TaskQueue B :=
  ((q.running.map RunningTask.cancelled).getD false, { q with running := none })

end TaskQueue

end MediaPipeline
