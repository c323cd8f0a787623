import MediaPipeline.Proofs.Tasks.Runs

/-!
# Ends of tasks

A task that runs once comes to an end when its body returns or when it is dropped. Until then it is
in the queue, with the worker or in the hands of a call. For each action, where it leaves the tasks,
which of them it starts and which it brings to an end, and what the handles tell after it.
-/

namespace MediaPipeline

variable {B R : Type}

def Task.runsOnce (t : Task B) : Bool := !t.repeats

/-- No task that runs once is lost or doubled, and none that repeats comes from nowhere. -/
structure Keeps (before after : List (Task B)) : Prop where
  once : (after.filter Task.runsOnce).Perm (before.filter Task.runsOnce)
  repeats : ∀ t ∈ after, t.repeats = true → ∃ s ∈ before, s.repeats = true ∧ s.id = t.id

namespace Keeps

variable {before after : List (Task B)}

theorem of_perm (h : after.Perm before) : Keeps before after :=
  ⟨h.filter _, fun t ht hrepeats => ⟨t, h.mem_iff.mp ht, hrepeats, rfl⟩⟩

theorem refl (ts : List (Task B)) : Keeps ts ts := .of_perm (.refl _)

theorem trans {last : List (Task B)} (h : Keeps before after) (hlast : Keeps after last) :
    Keeps before last where
  once := hlast.once.trans h.once
  repeats t ht hrepeats := by
    obtain ⟨s, hs, hsrepeats, hst⟩ := hlast.repeats t ht hrepeats
    obtain ⟨u, hu, hurepeats, hus⟩ := h.repeats s hs hsrepeats
    exact ⟨u, hu, hurepeats, hus.trans hst⟩

theorem append (h : Keeps before after) (rest : List (Task B)) :
    Keeps (before ++ rest) (after ++ rest) where
  once := by simpa using h.once.append_right _
  repeats t ht hrepeats := by
    rcases List.mem_append.mp ht with hafter | hrest
    · obtain ⟨s, hs, hsame⟩ := h.repeats t hafter hrepeats
      exact ⟨s, List.mem_append_left _ hs, hsame⟩
    · exact ⟨t, List.mem_append_right _ hrest, hrepeats, rfl⟩

theorem aside {ended : List (Task B)} (h : Keeps before (after ++ ended)) (rest : List (Task B)) :
    Keeps (before ++ rest) (after ++ rest ++ ended) :=
  (h.append rest).trans (.of_perm (by simpa using List.perm_append_comm.append_left after))

end Keeps

namespace RunnerPhase

/-- Out of the queue, and not done with. -/
def tasks : RunnerPhase B → List (Task B)
  | .executing t => [t]
  | .finishing t => if t.repeats then [t] else []
  | .dropping ts => ts
  | _ => []

def executed : RunnerPhase B → List (Task B)
  | .executing t => [t]
  | _ => []

theorem executed_subset (p : RunnerPhase B) : p.executed ⊆ p.tasks := by
  cases p <;> simp [executed, tasks]

theorem executed_eq_nil {p : RunnerPhase B} (h : ∀ t, p ≠ .executing t) : p.executed = [] := by
  cases p with
  | executing t => exact absurd rfl (h t)
  | _ => rfl

end RunnerPhase

/-- How a task that was run or dropped has ended. -/
inductive TaskEnd (R : Type) where
  | returned (result : R)
  | dropped
  deriving DecidableEq

namespace TaskEnd

def outcome : TaskEnd R → TaskOutcome R
  | .returned result => .returned result
  | .dropped => .cancelled

/-- What is known of the task with a number after its ends. -/
def told (ends : List (TaskEnd R)) : TaskOutcome R :=
  match ends with
  | [] => .pending
  | e :: _ => e.outcome

/-- The ends of the tasks with a number. -/
def having (id : Nat) (ended : List (Task B × TaskEnd R)) : List (TaskEnd R) :=
  (ended.filter (·.1.id = id)).map Prod.snd

theorem mem_having {id : Nat} {ended : List (Task B × TaskEnd R)} {e : TaskEnd R} :
    e ∈ having id ended ↔ ∃ t, (t, e) ∈ ended ∧ t.id = id := by
  simp [having]

/-- A task that has been run to the end of its body. -/
def returned? : Task B × TaskEnd R → Option (Task B)
  | (t, .returned _) => some t
  | (_, .dropped) => none

end TaskEnd

/-! ## What one step does with the tasks -/

namespace TaskRunner

variable {now : Duration} {due : Bool} {r : TaskRunner B R}

/-- What the worker is still to run or to drop. -/
def unfinished (r : TaskRunner B R) : List (Task B) := r.queue.tasks ++ r.phase.tasks

@[simp] theorem unfinished_resolve (r : TaskRunner B R) (id : Nat) (outcome : TaskOutcome R) :
    (r.resolve id outcome).unfinished = r.unfinished := rfl

theorem keeps_step (now : Duration) (due : Bool) (r : TaskRunner B R) :
    Keeps r.unfinished
      ((r.step now due).1.unfinished ++ (r.step now due).2.filterMap RunnerEvent.dropped?) := by
  have hstep := steps_step now due r
  generalize r.step now due = next at hstep ⊢
  cases hstep with
  | @start t rest hphase _ hselect _ =>
      refine .of_perm ?_
      have hperm := TaskQueue.perm_of_select hselect
      simpa [unfinished, RunnerPhase.tasks, List.filterMap_cons, hphase] using
        (List.perm_append_singleton t rest).trans hperm.symm
  | @requeue t hphase hrepeats _ =>
      constructor
      · simp [unfinished, RunnerPhase.tasks, Task.runsOnce, hphase, hrepeats]
      · intro u hu hurepeats
        simp only [unfinished, RunnerPhase.tasks, hphase, hrepeats, if_true, List.filterMap_nil,
          List.append_nil, List.mem_append, List.mem_singleton] at hu ⊢
        rcases hu with hu | rfl
        · exact ⟨u, .inl hu, hurepeats, rfl⟩
        · exact ⟨t, .inr rfl, hrepeats, rfl⟩
  | @finish t hphase _ =>
      constructor
      · cases hrepeats : t.repeats <;>
          simp [unfinished, RunnerPhase.tasks, Task.runsOnce, hphase, hrepeats]
      · intro u hu hurepeats
        refine ⟨u, ?_, hurepeats, rfl⟩
        simp_all [unfinished, RunnerPhase.tasks]
  | @drop t ts hphase =>
      refine .of_perm ?_
      simpa [unfinished, RunnerPhase.tasks, resolve, hphase] using
        (List.perm_append_singleton t ts).append_left r.queue.tasks
  | rest _ => simpa using Keeps.refl _
  | _ => exact .of_perm (by simp [unfinished, RunnerPhase.tasks, *])

theorem keeps_bodyReturned (r : TaskRunner B R) (result : R) :
    Keeps r.unfinished ((r.bodyReturned result).unfinished ++ r.phase.executed) := by
  unfold bodyReturned
  split
  · next t hphase =>
    constructor
    · cases hrepeats : t.repeats <;>
        simp [unfinished, RunnerPhase.tasks, RunnerPhase.executed, Task.runsOnce, resolve, hphase,
          hrepeats]
    · intro u hu hurepeats
      refine ⟨u, ?_, hurepeats, rfl⟩
      cases hrepeats : t.repeats <;>
        simp_all [unfinished, RunnerPhase.tasks, RunnerPhase.executed, resolve]
  · next hidle => simpa [RunnerPhase.executed_eq_nil hidle] using Keeps.refl r.unfinished

theorem executed_step (now : Duration) (due : Bool) (r : TaskRunner B R) :
    (r.step now due).1.phase.executed =
      r.phase.executed ++ (r.step now due).2.filterMap RunnerEvent.started? := by
  have hstep := steps_step now due r
  generalize r.step now due = next at hstep ⊢
  cases hstep with
  | rest _ => simp
  | _ => simp [RunnerPhase.executed, List.filterMap_cons, *]

theorem executed_bodyReturned (r : TaskRunner B R) (result : R) :
    (r.bodyReturned result).phase.executed = [] := by
  unfold bodyReturned
  split
  · rfl
  · next hidle => exact RunnerPhase.executed_eq_nil hidle

theorem nextId_step (now : Duration) (due : Bool) (r : TaskRunner B R) :
    (r.step now due).1.queue.nextId = r.queue.nextId := by
  have hstep := steps_step now due r
  generalize r.step now due = next at hstep ⊢
  cases hstep <;> rfl

/-- Tells every end to the handle of its task, if there is one. -/
def resolveAll (r : TaskRunner B R) (ended : List (Task B × TaskEnd R)) : TaskRunner B R :=
  ended.foldl (fun r (t, e) => r.resolve t.id e.outcome) r

theorem handles_step (now : Duration) (due : Bool) (r : TaskRunner B R) :
    (r.step now due).1.handles =
      (r.resolveAll (((r.step now due).2.filterMap RunnerEvent.dropped?).map
        fun t => (t, .dropped))).handles := by
  have hstep := steps_step now due r
  generalize r.step now due = next at hstep ⊢
  cases hstep <;> rfl

theorem handles_bodyReturned (r : TaskRunner B R) (result : R) :
    (r.bodyReturned result).handles =
      (r.resolveAll (r.phase.executed.map fun t => (t, .returned result))).handles := by
  unfold bodyReturned
  split
  · next t hphase => rw [hphase]; rfl
  · next hidle => rw [RunnerPhase.executed_eq_nil hidle]; rfl

/-- Out of its loop, the worker has left nothing in the queue. -/
def IsDrained (r : TaskRunner B R) : Prop :=
  match r.phase with
  | .dropping _ | .leaving | .exited => r.running = false ∧ r.queue.tasks = []
  | _ => True

theorem IsDrained.step (h : r.IsDrained) : (r.step now due).1.IsDrained := by
  have hstep := steps_step now due r
  generalize r.step now due = next at hstep ⊢
  cases hstep with
  | rest _ => exact h
  | _ => simp_all [IsDrained, resolve]

theorem started_step_of_stopped (hstop : r.running = false) :
    (r.step now due).1.running = false ∧
      (r.step now due).2.filterMap RunnerEvent.started? = [] := by
  have hstep := steps_step now due r
  generalize r.step now due = next at hstep ⊢
  cases hstep with
  | start _ hrun _ => exact absurd (hrun.symm.trans hstop) (by decide)
  | _ => exact ⟨hstop, rfl⟩

end TaskRunner

namespace RunnerSystem

variable {x : RunnerSystem B R} {a : RunnerAction B R}

def held (x : RunnerSystem B R) : List (Task B) := x.runner.unfinished ++ x.released

/-- The task that a call adds. -/
def handed? (x : RunnerSystem B R) : RunnerAction B R → Option (Task B)
  | .addTask now priority name body =>
    let priority := if priority = .timer then .internal else priority
    some ⟨x.runner.queue.nextId, priority, name, now, 0, false, body⟩
  | .addTimer now delay repeats body =>
    let name := if repeats then "repeated timer" else "timer"
    some ⟨x.runner.queue.nextId, .timer, name, now, delay, repeats, body⟩
  | _ => none

/-- The same if the call gives a handle back. -/
def added? (x : RunnerSystem B R) (a : RunnerAction B R) : Option (Task B) :=
  match a with
  | .addTask .. => x.handed? a
  | _ => none

def returned (x : RunnerSystem B R) : RunnerAction B R → List (Task B × TaskEnd R)
  | .bodyReturns result => x.runner.phase.executed.map fun t => (t, .returned result)
  | _ => []

/-- The tasks that come to an end, of those that repeat also at the end of each run. -/
def ended (x : RunnerSystem B R) (a : RunnerAction B R) : List (Task B × TaskEnd R) :=
  x.returned a ++ ((x.act a).2.filterMap RunnerEvent.dropped?).map fun t => (t, .dropped)

theorem perm_enqueue (x : RunnerSystem B R) (now : Duration) (priority : TaskPriority)
    (name : String) (delay : Duration) (repeats : Bool) (body : B) :
    (x.enqueue now priority name delay repeats body).held.Perm
      (x.held ++ [⟨x.runner.queue.nextId, priority, name, now, delay, repeats, body⟩]) := by
  cases hrun : x.runner.running with
  | true =>
      simpa [held, enqueue, TaskRunner.enqueue, TaskRunner.unfinished, TaskQueue.push, hrun] using
        (List.perm_append_singleton _ (x.runner.phase.tasks ++ x.released)).symm.append_left
          x.runner.queue.tasks
  | false => simp [held, enqueue, TaskRunner.enqueue, TaskRunner.unfinished, hrun]

@[simp] theorem held_addHandle (x : RunnerSystem B R) (id : Nat) :
    (x.addHandle id).held = x.held := rfl

/-- No action loses a task or counts one twice. -/
theorem keeps_act (x : RunnerSystem B R) (a : RunnerAction B R) :
    Keeps (x.held ++ (x.handed? a).toList) ((x.act a).1.held ++ (x.ended a).map Prod.fst) := by
  cases a with
  | step now due =>
      simpa [held, handed?, ended, returned, act, Function.comp_def] using
        (x.runner.keeps_step now due).aside x.released
  | bodyReturns result =>
      simpa [held, handed?, ended, returned, act, Function.comp_def] using
        (x.runner.keeps_bodyReturned result).aside x.released
  | addTask now priority name body =>
      exact .of_perm (by simpa [handed?, ended, returned, act] using x.perm_enqueue ..)
  | addTimer now delay repeats body =>
      exact .of_perm (by simpa [handed?, ended, returned, act] using x.perm_enqueue ..)
  | cancel id =>
      refine .of_perm ?_
      have hqueue :=
        (x.runner.queue.perm_cancel id).append_right (x.runner.phase.tasks ++ x.released)
      rw [List.append_assoc] at hqueue
      simpa [held, handed?, ended, returned, act, TaskRunner.unfinished] using
        (hqueue.trans List.perm_append_comm).symm
  | drop i =>
      refine .of_perm ?_
      cases hreleased : x.released[i]? with
      | none => simp [held, handed?, ended, returned, act, hreleased]
      | some t =>
        obtain ⟨hi, rfl⟩ := List.getElem?_eq_some_iff.mp hreleased
        have hperm := (List.perm_append_singleton _ _).trans (List.getElem_cons_eraseIdx_perm hi)
        simpa [held, handed?, ended, returned, act, hreleased] using
          hperm.append_left x.runner.unfinished
  | stop =>
      exact .of_perm (by simp [held, handed?, ended, returned, act, TaskRunner.unfinished,
        TaskRunner.requestStop])
  | callWait => exact .of_perm (by simp [held, handed?, ended, returned, act])
  | wait i =>
      obtain ⟨idleSignalled, waiters, hact⟩ := x.exists_act_wait i
      exact .of_perm (by simp [held, handed?, ended, returned, hact, TaskRunner.unfinished])

theorem id_of_handed? {t : Task B} (h : x.handed? a = some t) : t.id = x.runner.queue.nextId := by
  cases a <;> cases h <;> rfl

theorem nextId_act (x : RunnerSystem B R) (a : RunnerAction B R) :
    (x.act a).1.runner.queue.nextId =
      x.runner.queue.nextId + (x.handed? a).toList.length := by
  cases a with
  | step now due => exact x.runner.nextId_step now due
  | bodyReturns result =>
      simp only [act, handed?, TaskRunner.bodyReturned]
      split <;> rfl
  | addTask | addTimer =>
      simp only [act, handed?, addHandle, enqueue, TaskRunner.enqueue]
      split <;> rfl
  | drop i =>
      simp only [act]
      split <;> rfl
  | wait i =>
      obtain ⟨idleSignalled, waiters, hact⟩ := x.exists_act_wait i
      rw [hact]
      rfl
  | _ => rfl

/-- What has begun and what begins now has returned by now or goes on. -/
theorem executed_act (x : RunnerSystem B R) (a : RunnerAction B R) :
    x.runner.phase.executed ++ (x.act a).2.filterMap RunnerEvent.started? =
      (x.ended a).filterMap TaskEnd.returned? ++ (x.act a).1.runner.phase.executed := by
  cases a with
  | step now due =>
      have hstep := x.runner.executed_step now due
      simp [ended, returned, act, hstep, List.filterMap_map, TaskEnd.returned?, Function.comp_def]
  | bodyReturns result =>
      have hover := x.runner.executed_bodyReturned result
      simp [ended, returned, act, hover, List.filterMap_map, TaskEnd.returned?, Function.comp_def]
  | addTask | addTimer =>
      simp only [ended, returned, act, addHandle, enqueue, TaskRunner.enqueue]
      split <;> simp
  | drop i =>
      simp only [ended, returned, act]
      split <;> simp [TaskEnd.returned?, TaskRunner.resolve, List.filterMap_cons]
  | wait i =>
      obtain ⟨idleSignalled, waiters, hact⟩ := x.exists_act_wait i
      simp [ended, returned, hact]
  | cancel | stop | callWait => simp [ended, returned, act, TaskRunner.requestStop]

theorem handles_act (x : RunnerSystem B R) (a : RunnerAction B R) :
    (x.act a).1.runner.handles =
      (x.runner.resolveAll (x.ended a)).handles ++
        (x.added? a).toList.map fun t => (t.id, .pending) := by
  cases a with
  | step now due => simpa [ended, returned, act, added?] using x.runner.handles_step now due
  | bodyReturns result =>
      simpa [ended, returned, act, added?] using x.runner.handles_bodyReturned result
  | addTask | addTimer =>
      simp only [ended, returned, act, added?, handed?, addHandle, enqueue, TaskRunner.enqueue]
      split <;> simp [TaskRunner.resolveAll]
  | drop i =>
      simp only [ended, returned, act, added?]
      split <;> simp [TaskRunner.resolveAll, TaskEnd.outcome]
  | wait i =>
      obtain ⟨idleSignalled, waiters, hact⟩ := x.exists_act_wait i
      simp [ended, returned, added?, hact, TaskRunner.resolveAll]
  | cancel | stop | callWait =>
      simp [ended, returned, act, added?, TaskRunner.requestStop, TaskRunner.resolveAll]

theorem isDrained_act (h : x.runner.IsDrained) : (x.act a).1.runner.IsDrained := by
  cases a with
  | step now due => exact h.step
  | bodyReturns result =>
      simp only [act, TaskRunner.bodyReturned]
      split
      · trivial
      · exact h
  | addTask | addTimer =>
      simp only [act, addHandle, enqueue, TaskRunner.enqueue]
      split
      · cases hphase : x.runner.phase <;> simp_all [TaskRunner.IsDrained]
      · exact h
  | cancel id =>
      cases hphase : x.runner.phase <;>
        simp_all [act, TaskRunner.IsDrained, TaskQueue.cancel]
  | drop i =>
      simp only [act]
      split <;> exact h
  | stop =>
      cases hphase : x.runner.phase <;>
        simp_all [act, TaskRunner.IsDrained, TaskRunner.requestStop]
  | callWait => exact h
  | wait i =>
      obtain ⟨idleSignalled, waiters, hact⟩ := x.exists_act_wait i
      rw [hact]
      exact h

theorem started_act_of_stopped (hstop : x.runner.running = false) :
    (x.act a).1.runner.running = false ∧
      (x.act a).2.filterMap RunnerEvent.started? = [] := by
  cases a with
  | step now due => exact TaskRunner.started_step_of_stopped hstop
  | bodyReturns result =>
      simp only [act, TaskRunner.bodyReturned]
      split <;> exact ⟨hstop, rfl⟩
  | addTask | addTimer =>
      simp [act, addHandle, enqueue, TaskRunner.enqueue, hstop]
  | drop i =>
      simp only [act]
      split <;> exact ⟨hstop, rfl⟩
  | wait i =>
      obtain ⟨idleSignalled, waiters, hact⟩ := x.exists_act_wait i
      rw [hact]
      exact ⟨hstop, rfl⟩
  | cancel | callWait => exact ⟨hstop, rfl⟩
  | stop => exact ⟨rfl, rfl⟩

end RunnerSystem

end MediaPipeline
