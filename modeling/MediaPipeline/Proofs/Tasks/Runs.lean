import Mathlib.Data.List.Perm.Basic
import MediaPipeline.Proofs.Tasks.Turns
import MediaPipeline.Task.Runner

/-!
# Runs of a task runner

A runner, the calls of other threads on it and the threads that wait until it has no pending work.
The worker makes one step at a time. A call does its part under the lock in one step; the tasks that
it has then in its hands, taken out of the queue or refused, it drops later, out of the lock.
-/

namespace MediaPipeline

namespace RunnerEvent

variable {B : Type}

def started? : RunnerEvent B → Option (Task B)
  | .started t => some t
  | .dropped _ => none

def dropped? : RunnerEvent B → Option (Task B)
  | .started _ => none
  | .dropped t => some t

variable (t : Task B)

@[simp] theorem started?_started : (started t).started? = some t := rfl

@[simp] theorem started?_dropped : (dropped t).started? = none := rfl

@[simp] theorem dropped?_started : (started t).dropped? = none := rfl

@[simp] theorem dropped?_dropped : (dropped t).dropped? = some t := rfl

end RunnerEvent

structure RunnerSystem (B R : Type) where
  runner : TaskRunner B R
  /-- In the hands of calls that have still to drop them. -/
  released : List (Task B)
  /-- The calls that wait until the runner is idle, also those that have returned. -/
  waiters : List IdleWait
  deriving DecidableEq

inductive RunnerAction (B R : Type) where
  /-- The worker makes a step at this time; `due` says that its wait for a timer is over. -/
  | step (now : Duration) (due : Bool)
  | bodyReturns (result : R)
  | addTask (now : Duration) (priority : TaskPriority) (name : String) (body : B)
  | addTimer (now delay : Duration) (repeats : Bool) (body : B)
  | cancel (id : Nat)
  /-- A call drops a task that it has in its hands. -/
  | drop (i : Nat)
  | stop
  /-- One more thread begins to wait until the runner is idle. -/
  | callWait
  /-- One of these threads goes on. -/
  | wait (i : Nat)
  deriving DecidableEq

namespace RunnerSystem

variable {B R : Type}

def new (name : String) : RunnerSystem B R := ⟨.new name, [], []⟩

/-- What a call that adds a task does under the lock. -/
def enqueue (now : Duration) (x : RunnerSystem B R) (priority : TaskPriority) (name : String)
    (delay : Duration) (repeats : Bool) (body : B) : RunnerSystem B R :=
  let (_, runner, events) := x.runner.enqueue now priority name delay repeats body
  { x with runner, released := x.released ++ events.filterMap RunnerEvent.dropped? }

def addHandle (x : RunnerSystem B R) (id : Nat) : RunnerSystem B R :=
  { x with runner := { x.runner with handles := x.runner.handles ++ [(id, .pending)] } }

def act (x : RunnerSystem B R) :
    RunnerAction B R → RunnerSystem B R × List (RunnerEvent B)
  | .step now due =>
    let (runner, events) := x.runner.step now due
    ({ x with runner }, events)
  | .bodyReturns result => ({ x with runner := x.runner.bodyReturned result }, [])
  | .addTask now priority name body =>
    let priority := if priority = .timer then .internal else priority
    ((x.enqueue now priority name 0 false body).addHandle x.runner.queue.nextId, [])
  | .addTimer now delay repeats body =>
    let name := if repeats then "repeated timer" else "timer"
    (x.enqueue now .timer name delay repeats body, [])
  | .cancel id =>
    let (task, queue) := x.runner.queue.cancel id
    ({ x with runner := { x.runner with queue }, released := x.released ++ task.toList }, [])
  | .drop i =>
    match x.released[i]? with
    | some t =>
      ({ x with runner := x.runner.resolve t.id .cancelled, released := x.released.eraseIdx i },
        [.dropped t])
    | none => (x, [])
  | .stop => ({ x with runner := x.runner.requestStop }, [])
  | .callWait => ({ x with waiters := x.waiters ++ [.entering] }, [])
  | .wait i =>
    match x.waiters[i]? with
    | some w =>
      let (runner, w) := w.step x.runner
      ({ x with runner, waiters := x.waiters.set i w }, [])
    | none => (x, [])

def actAll (x : RunnerSystem B R) (as : List (RunnerAction B R)) : RunnerSystem B R :=
  as.foldl (fun x a => (x.act a).1) x

/-- A thread that waits changes nothing in the runner but the event. -/
theorem exists_act_wait (x : RunnerSystem B R) (i : Nat) :
    ∃ idleSignalled waiters,
      x.act (.wait i) = ({ x with runner := { x.runner with idleSignalled }, waiters }, []) := by
  cases hi : x.waiters[i]? with
  | none => exact ⟨x.runner.idleSignalled, x.waiters, by simp [act, hi]⟩
  | some w =>
    refine ⟨(w.step x.runner).1.idleSignalled, x.waiters.set i (w.step x.runner).2, ?_⟩
    cases w <;> simp [act, hi, IdleWait.step]

end RunnerSystem

namespace TaskRunner

variable {B R : Type}

/-! ## Calls in one step -/

theorem resolve_of_fresh {r : TaskRunner B R} {id : Nat} (outcome : TaskOutcome R)
    (hfresh : ∀ h ∈ r.handles, h.1 ≠ id) : r.resolve id outcome = r := by
  suffices hkeep : (r.resolve id outcome).handles = r.handles from
    congrArg (fun handles => { r with handles }) hkeep
  refine (List.map_congr_left ?_).trans r.handles.map_id
  rintro ⟨i, o⟩ hmem
  cases o with
  | pending => simp [hfresh _ hmem]
  | _ => rfl

theorem addTimer_eq_actAll (now : Duration) (r : TaskRunner B R) (delay : Duration) (body : B) :
    RunnerSystem.actAll ⟨r, [], []⟩ [.addTimer now delay false body] =
      ⟨(r.addTimer now delay body).2.1,
        (r.addTimer now delay body).2.2.filterMap RunnerEvent.dropped?, []⟩ :=
  rfl

theorem cancel_eq_actAll (r : TaskRunner B R) (id : Nat) :
    RunnerSystem.actAll ⟨r, [], []⟩ [.cancel id, .drop 0] = ⟨(r.cancel id).1, [], []⟩ := by
  have hid : ∀ t, r.queue.tasks.find? (·.id = id) = some t → t.id = id := by
    intro t hfind
    simpa using List.find?_some hfind
  simp only [RunnerSystem.actAll, RunnerSystem.act, TaskRunner.cancel, TaskQueue.cancel,
    List.foldl_cons, List.foldl_nil]
  cases hfind : r.queue.tasks.find? (·.id = id) with
  | none => simp
  | some t => simp [TaskRunner.resolve, hid t hfind]

theorem addTask_eq_actAll (now : Duration) (r : TaskRunner B R) (priority : TaskPriority)
    (name : String) (body : B) (hfresh : ∀ h ∈ r.handles, h.1 ≠ r.queue.nextId) :
    RunnerSystem.actAll ⟨r, [], []⟩ [.addTask now priority name body, .drop 0] =
      ⟨(r.addTask now priority name body).2.1, [], []⟩ := by
  cases hrun : r.running with
  | true =>
    simp [RunnerSystem.actAll, RunnerSystem.act, RunnerSystem.enqueue, RunnerSystem.addHandle,
      TaskRunner.addTask, TaskRunner.enqueue, hrun]
  | false =>
    have hkeep := congrArg handles (resolve_of_fresh .cancelled hfresh)
    simp only [resolve] at hkeep
    simp [RunnerSystem.actAll, RunnerSystem.act, RunnerSystem.enqueue, RunnerSystem.addHandle,
      TaskRunner.addTask, TaskRunner.enqueue, TaskRunner.resolve, hrun, hkeep]

end TaskRunner

/-! ## What one step can do -/

namespace TaskQueue

variable {B : Type}

theorem perm_cancel (q : TaskQueue B) (id : Nat) :
    q.tasks.Perm ((q.cancel id).1.toList ++ (q.cancel id).2.tasks) := by
  simp only [cancel]
  induction q.tasks with
  | nil => simp
  | cons t ts ih =>
      by_cases hid : t.id = id
      · simp [hid]
      · simpa [hid] using (ih.cons t).trans List.perm_middle.symm

end TaskQueue

namespace TaskRunner

variable {B R : Type}

/-- Every step of the worker, with what it found. -/
inductive Steps (now : Duration) (due : Bool) (r : TaskRunner B R) :
    TaskRunner B R × List (RunnerEvent B) → Prop
  | stop (hphase : r.phase = .choosing) (hstop : r.running = false) :
    Steps now due r
      ({ r with queue := { r.queue with tasks := [] }, phase := .dropping r.queue.tasks }, [])
  | start {t : Task B} {rest : List (Task B)} (hphase : r.phase = .choosing)
      (hrun : r.running = true) (hselect : TaskQueue.select now r.queue.tasks = some (t, rest))
      (hmeasured : ∀ u ∈ r.queue.tasks, u.isMeasured = true) :
    Steps now due r
      ({ r with
          queue := { r.queue with tasks := rest, running := some ⟨t.id, t.repeats, false⟩ }
          phase := .executing t },
        [.started t])
  | sleep (hphase : r.phase = .choosing) (hrun : r.running = true)
      (hselect : TaskQueue.select now r.queue.tasks = none)
      (hmeasured : ∀ u ∈ r.queue.tasks, u.isMeasured = true) :
    Steps now due r
      ({ r with
          idleSignalled := r.idleSignalled || !r.hasPendingWork
          notified := false
          phase := .idle },
        [])
  | fail (hphase : r.phase = .choosing) (hrun : r.running = true)
      (hfar : ∃ t ∈ r.queue.tasks, t.priority = .timer ∧ t.fireTime? = none) :
    Steps now due r ({ r with phase := .failed }, [])
  | requeue {t : Task B} (hphase : r.phase = .finishing t) (hrepeats : t.repeats = true)
      (hkept : (r.queue.running.map RunningTask.cancelled).getD false = false) :
    Steps now due r
      ({ r with
          queue :=
            { r.queue with tasks := r.queue.tasks ++ [{ t with start := now }], running := none }
          phase := .choosing },
        [])
  | finish {t : Task B} (hphase : r.phase = .finishing t)
      (hover : t.repeats = false ∨
        (r.queue.running.map RunningTask.cancelled).getD false = true) :
    Steps now due r
      ({ r with queue := { r.queue with running := none }, phase := .choosing }, [])
  | wake (hphase : r.phase = .idle) (hwoken : (r.notified || due) = true) :
    Steps now due r ({ r with phase := .choosing }, [])
  | drop {t : Task B} {ts : List (Task B)} (hphase : r.phase = .dropping (t :: ts)) :
    Steps now due r ({ r.resolve t.id .cancelled with phase := .dropping ts }, [.dropped t])
  | leave (hphase : r.phase = .dropping []) :
    Steps now due r ({ r with phase := .leaving }, [])
  | exit (hphase : r.phase = .leaving) :
    Steps now due r ({ r with idleSignalled := true, phase := .exited }, [])
  | rest (hrest : (∃ t, r.phase = .executing t) ∨
        (r.phase = .idle ∧ (r.notified || due) = false) ∨ r.phase = .exited ∨ r.phase = .failed) :
    Steps now due r (r, [])

theorem steps_step (now : Duration) (due : Bool) (r : TaskRunner B R) :
    Steps now due r (r.step now due) := by
  unfold step
  cases hphase : r.phase with
  | choosing =>
      dsimp only
      unfold choose
      by_cases hrun : r.running = true
      · rw [if_neg (by simp [hrun])]
        cases htake : r.queue.takeNext? now with
        | none => exact .fail hphase hrun (TaskQueue.takeNext?_eq_none_iff.mp htake)
        | some chosen =>
          obtain ⟨hmeasured, rfl⟩ := TaskQueue.takeNext?_eq_some_iff.mp htake
          cases hselect : TaskQueue.select now r.queue.tasks with
          | none => exact .sleep hphase hrun hselect hmeasured
          | some chosen =>
            obtain ⟨t, rest⟩ := chosen
            exact .start hphase hrun hselect hmeasured
      · rw [Bool.not_eq_true] at hrun
        rw [if_pos (by simp [hrun])]
        exact .stop hphase hrun
  | executing t => exact .rest (.inl ⟨t, hphase⟩)
  | finishing t =>
      dsimp only [finish]
      split_ifs with hrequeue
      · simp only [Bool.and_eq_true, Bool.not_eq_true'] at hrequeue
        exact .requeue hphase hrequeue.1 hrequeue.2
      · refine .finish hphase ?_
        cases hrepeats : t.repeats with
        | false => exact .inl rfl
        | true => exact .inr (by simpa [hrepeats, TaskQueue.finishRunning] using hrequeue)
  | idle =>
      dsimp only
      split_ifs with hwoken
      · exact .wake hphase hwoken
      · exact .rest (.inr (.inl ⟨hphase, by simpa using hwoken⟩))
  | dropping ts =>
      cases ts with
      | nil => exact .leave hphase
      | cons t ts => exact .drop hphase
  | leaving => exact .exit hphase
  | exited => exact .rest (.inr (.inr (.inl hphase)))
  | failed => exact .rest (.inr (.inr (.inr hphase)))

end TaskRunner

end MediaPipeline
