import Mathlib.Data.List.Induction
import Mathlib.Data.List.Nodup
import MediaPipeline.Proofs.Tasks.Ends

/-!
# Moves of tasks

The worker takes a task out of the queue to run it, and puts one that repeats back when its body is
over. In between the queue does not have it, and calls may add tasks and cancel them. Every action
is one of a few moves of these kinds, and through all of them a task's number stays its own.
-/

namespace MediaPipeline

variable {B R : Type}

theorem RunnerEvent.mem_started {events : List (RunnerEvent B)} {t : Task B}
    (h : .started t ∈ events) : t ∈ events.filterMap started? :=
  List.mem_filterMap.mpr ⟨_, h, rfl⟩

/-- The task that the worker has taken out of the queue, until it is back under the lock. -/
def RunnerPhase.taken : RunnerPhase B → Option (Task B)
  | .executing t | .finishing t => some t
  | _ => none

/-- The number that a call cancels. -/
def RunnerAction.cancelled? : RunnerAction B R → Option Nat
  | .cancel id => some id
  | _ => none

namespace RunnerSystem

def queue (x : RunnerSystem B R) : TaskQueue B := x.runner.queue

def taken (x : RunnerSystem B R) : Option (Task B) := x.runner.phase.taken

/-- What an action leaves in the queue and with the worker, and what it starts. -/
inductive Moves (x : RunnerSystem B R) :
    RunnerAction B R → TaskQueue B → Option (Task B) → List (Task B) → Prop
  | hand {a : RunnerAction B R} {t : Task B} (hhanded : x.handed? a = some t) :
    Moves x a
      { x.queue with tasks := x.queue.tasks ++ [t], nextId := x.queue.nextId + 1 } x.taken []
  | refuse {a : RunnerAction B R} {t : Task B} (hhanded : x.handed? a = some t) :
    Moves x a { x.queue with nextId := x.queue.nextId + 1 } x.taken []
  | start {now : Duration} {due : Bool} {t : Task B} {rest : List (Task B)}
      (htaken : x.taken = none) (hselect : TaskQueue.select now x.queue.tasks = some (t, rest))
      (hmeasured : ∀ u ∈ x.queue.tasks, u.isMeasured = true) :
    Moves x (.step now due)
      { x.queue with tasks := rest, running := some ⟨t.id, t.repeats, false⟩ } (some t) [t]
  | requeue {now : Duration} {due : Bool} {t : Task B} (htaken : x.taken = some t)
      (hrepeats : t.repeats = true)
      (hkept : (x.queue.running.map RunningTask.cancelled).getD false = false) :
    Moves x (.step now due)
      { x.queue with tasks := x.queue.tasks ++ [{ t with start := now }], running := none } none []
  | finish {now : Duration} {due : Bool} {t : Task B} (htaken : x.taken = some t) :
    Moves x (.step now due) { x.queue with running := none } none []
  | drain {now : Duration} {due : Bool} (htaken : x.taken = none) :
    Moves x (.step now due) { x.queue with tasks := [] } none []
  | cancel (id : Nat) : Moves x (.cancel id) (x.queue.cancel id).2 x.taken []
  | keep {a : RunnerAction B R} (hhanded : x.handed? a = none) (hcall : a.cancelled? = none) :
    Moves x a x.queue x.taken []

theorem cancelled?_of_handed? {x : RunnerSystem B R} {a : RunnerAction B R} {t : Task B}
    (hhanded : x.handed? a = some t) : a.cancelled? = none := by
  cases a with
  | cancel id => cases hhanded
  | _ => rfl

theorem moves_step (x : RunnerSystem B R) (now : Duration) (due : Bool) :
    x.Moves (.step now due) (x.act (.step now due)).1.queue (x.act (.step now due)).1.taken
      ((x.act (.step now due)).2.filterMap RunnerEvent.started?) := by
  have hstep := x.runner.steps_step now due
  simp only [act, queue, taken]
  generalize x.runner.step now due = next at hstep ⊢
  have hkeep (h : next.1.queue = x.queue ∧ next.1.phase.taken = x.taken ∧
        next.2.filterMap RunnerEvent.started? = []) :
      x.Moves (.step now due) next.1.queue next.1.phase.taken
        (next.2.filterMap RunnerEvent.started?) := by
    rw [h.1, h.2.1, h.2.2]
    exact .keep rfl rfl
  cases hstep with
  | stop hphase _ => exact .drain (by rw [taken, hphase]; rfl)
  | start hphase _ hselect hmeasured =>
      exact .start (by rw [taken, hphase]; rfl) hselect hmeasured
  | requeue hphase hrepeats hkept => exact .requeue (by rw [taken, hphase]; rfl) hrepeats hkept
  | @finish t hphase _ => exact .finish (t := t) (by rw [taken, hphase]; rfl)
  | sleep hphase | fail hphase | wake hphase | drop hphase | leave hphase | exit hphase =>
      exact hkeep ⟨rfl, by rw [taken, hphase]; rfl, rfl⟩
  | rest _ => exact hkeep ⟨rfl, rfl, rfl⟩

theorem moves_enqueue (x : RunnerSystem B R) {a : RunnerAction B R} {now delay : Duration}
    {priority : TaskPriority} {name : String} {repeats : Bool} {body : B}
    (hhanded : x.handed? a =
      some ⟨x.queue.nextId, priority, name, now, delay, repeats, body⟩) :
    x.Moves a (x.enqueue now priority name delay repeats body).queue
      (x.enqueue now priority name delay repeats body).taken [] := by
  cases hrun : x.runner.running with
  | true =>
      simpa [queue, taken, enqueue, TaskRunner.enqueue, TaskQueue.push, hrun] using
        Moves.hand hhanded
  | false => simpa [queue, taken, enqueue, TaskRunner.enqueue, hrun] using Moves.refuse hhanded

theorem moves_act (x : RunnerSystem B R) (a : RunnerAction B R) :
    x.Moves a (x.act a).1.queue (x.act a).1.taken
      ((x.act a).2.filterMap RunnerEvent.started?) := by
  cases a with
  | step now due => exact x.moves_step now due
  | addTask | addTimer => exact x.moves_enqueue rfl
  | cancel id => exact .cancel id
  | bodyReturns result =>
      have hbody : (x.runner.bodyReturned result).queue = x.queue ∧
          (x.runner.bodyReturned result).phase.taken = x.taken := by
        unfold TaskRunner.bodyReturned taken
        split
        · next hphase => exact ⟨rfl, by rw [hphase]; rfl⟩
        · exact ⟨rfl, rfl⟩
      simp only [act, queue, taken, hbody]
      exact .keep rfl rfl
  | drop i =>
      simp only [act]
      split <;> exact .keep rfl rfl
  | stop | callWait => exact .keep rfl rfl
  | wait i =>
      obtain ⟨idleSignalled, waiters, hact⟩ := x.exists_act_wait i
      rw [hact]
      exact .keep rfl rfl

end RunnerSystem

namespace TaskQueue

/-- The tasks that run or are still to run. -/
def live (q : TaskQueue B) (taken : Option (Task B)) : List (Task B) := q.tasks ++ taken.toList

structure IsNumbered (q : TaskQueue B) (taken : Option (Task B)) : Prop where
  nodup : ((q.live taken).map Task.id).Nodup
  below : ∀ t ∈ q.live taken, t.id < q.nextId

variable {q q' : TaskQueue B} {taken taken' : Option (Task B)} {t : Task B}

theorem IsNumbered.of_subperm (h : q.IsNumbered taken)
    (hlive : ((q'.live taken').map Task.id).Subperm ((q.live taken).map Task.id))
    (hnext : q.nextId ≤ q'.nextId) : q'.IsNumbered taken' where
  nodup := by
    obtain ⟨ids, hperm, hsub⟩ := hlive
    exact hperm.nodup_iff.mp (h.nodup.sublist hsub)
  below t ht := by
    obtain ⟨u, hu, hid⟩ := List.mem_map.mp (hlive.subset (List.mem_map_of_mem ht))
    exact hid ▸ (h.below u hu).trans_le hnext

theorem IsNumbered.nodup_tasks (h : q.IsNumbered taken) : (q.tasks.map Task.id).Nodup :=
  h.nodup.sublist ((List.sublist_append_left _ _).map _)

theorem perm_live_hand (q : TaskQueue B) (taken : Option (Task B)) (t : Task B) (nextId : Nat) :
    (live { q with tasks := q.tasks ++ [t], nextId } taken).Perm (t :: q.live taken) := by
  simp only [live, List.append_assoc, List.singleton_append]
  exact List.perm_middle

theorem perm_live_start {now : Duration} {rest : List (Task B)} {running : Option RunningTask}
    (hselect : select now q.tasks = some (t, rest)) :
    (live { q with tasks := rest, running } (some t)).Perm (q.live none) := by
  refine (List.perm_append_singleton t rest).trans ?_
  simpa [live] using (perm_of_select hselect).symm

/-- A new task has a number that no other has. -/
theorem IsNumbered.hand (h : q.IsNumbered taken) (hid : t.id = q.nextId) :
    { q with tasks := q.tasks ++ [t], nextId := q.nextId + 1 : TaskQueue B }.IsNumbered taken := by
  have hperm := perm_live_hand q taken t (q.nextId + 1)
  constructor
  · refine (hperm.map Task.id).nodup_iff.mpr (List.nodup_cons.mpr ⟨fun hmem => ?_, h.nodup⟩)
    obtain ⟨u, hu, hsame⟩ := List.mem_map.mp hmem
    exact (h.below u hu).ne (hsame.trans hid)
  · intro u hu
    rcases List.mem_cons.mp (hperm.mem_iff.mp hu) with rfl | hold
    · exact hid ▸ Nat.lt_succ_self _
    · exact (h.below u hold).trans (Nat.lt_succ_self _)

end TaskQueue

namespace RunnerSystem

variable {x : RunnerSystem B R} {a : RunnerAction B R} {q : TaskQueue B}
  {taken : Option (Task B)} {started : List (Task B)}

/-- A task that may run is new or was there before, perhaps counting from another start. -/
theorem Moves.origin (hmove : x.Moves a q taken started) {t : Task B} (ht : t ∈ q.live taken) :
    x.handed? a = some t ∨ ∃ s ∈ x.queue.live x.taken, ∃ start, t = { s with start } := by
  cases hmove with
  | hand hhanded =>
      rcases List.mem_cons.mp ((TaskQueue.perm_live_hand ..).mem_iff.mp ht) with rfl | hold
      · exact .inl hhanded
      · exact .inr ⟨t, hold, t.start, rfl⟩
  | start htaken hselect _ =>
      rw [htaken]
      exact .inr ⟨t, (TaskQueue.perm_live_start hselect).mem_iff.mp ht, t.start, rfl⟩
  | @requeue now due s htaken _ _ =>
      rw [htaken]
      simp only [TaskQueue.live, Option.toList_none, List.append_nil, List.mem_append,
        List.mem_singleton] at ht
      rcases ht with hold | rfl
      · exact .inr ⟨t, List.mem_append_left _ hold, t.start, rfl⟩
      · exact .inr ⟨s, by simp [TaskQueue.live], now, rfl⟩
  | finish _ =>
      exact .inr ⟨t, List.mem_append_left _ (by simpa [TaskQueue.live] using ht), t.start, rfl⟩
  | drain _ => cases ht
  | cancel id =>
      have hsub := (List.eraseP_sublist (p := (·.id = id)) (l := x.queue.tasks)).append_right
        x.taken.toList
      exact .inr ⟨t, hsub.subset ht, t.start, rfl⟩
  | refuse _ | keep _ _ => exact .inr ⟨t, ht, t.start, rfl⟩

theorem Moves.isNumbered (hmove : x.Moves a q taken started) (h : x.queue.IsNumbered x.taken) :
    q.IsNumbered taken := by
  cases hmove with
  | hand hhanded => exact h.hand (id_of_handed? hhanded)
  | refuse _ => exact h.of_subperm (List.Subperm.refl _) (Nat.le_succ _)
  | start htaken hselect _ =>
      rw [htaken] at h
      exact h.of_subperm ((TaskQueue.perm_live_start hselect).map _).subperm le_rfl
  | requeue htaken _ _ =>
      refine h.of_subperm (List.Perm.subperm ?_) le_rfl
      simp [TaskQueue.live, htaken]
  | finish _ =>
      refine h.of_subperm (List.Sublist.subperm ?_) le_rfl
      simp [TaskQueue.live]
  | drain _ => exact h.of_subperm List.nil_subperm le_rfl
  | cancel id =>
      refine h.of_subperm (List.Sublist.subperm ?_) le_rfl
      exact (List.eraseP_sublist.append_right _).map _
  | keep _ _ => exact h

theorem Moves.mem_of_started (hmove : x.Moves a q taken started) {t : Task B} (ht : t ∈ started) :
    t ∈ x.queue.tasks := by
  cases hmove with
  | start _ hselect _ =>
      obtain rfl := List.mem_singleton.mp ht
      exact (TaskQueue.perm_of_select hselect).mem_iff.mpr List.mem_cons_self
  | _ => cases ht

theorem isNumbered_actAll (name : String) (as : List (RunnerAction B R)) :
    (actAll (new name) as).queue.IsNumbered (actAll (new name) as).taken := by
  suffices h : ∀ x : RunnerSystem B R, x.queue.IsNumbered x.taken →
      (x.actAll as).queue.IsNumbered (x.actAll as).taken from h _ ⟨.nil, nofun⟩
  induction as with
  | nil => exact fun x h => h
  | cons a as ih => exact fun x h => ih _ ((x.moves_act a).isNumbered h)

theorem actAll_concat (x : RunnerSystem B R) (as : List (RunnerAction B R))
    (a : RunnerAction B R) : x.actAll (as ++ [a]) = ((x.actAll as).act a).1 :=
  List.foldl_concat ..

/-! ## A worker that fails -/

/-- The worker fails at a timer that has no fire time, and nowhere else. -/
theorem far_timer_of_failed (hworking : x.runner.phase ≠ .failed)
    (hfailed : (x.act a).1.runner.phase = .failed) :
    ∃ t ∈ x.runner.queue.tasks, t.priority = .timer ∧ t.fireTime? = none := by
  cases a with
  | step now due =>
      have hstep := x.runner.steps_step now due
      simp only [act] at hfailed
      generalize x.runner.step now due = next at hstep hfailed
      cases hstep with
      | fail _ _ hfar => exact hfar
      | rest _ => exact absurd hfailed hworking
      | _ => cases hfailed
  | bodyReturns result =>
      simp only [act, TaskRunner.bodyReturned] at hfailed
      split at hfailed
      · cases hfailed
      · exact absurd hfailed hworking
  | addTask | addTimer =>
      simp only [act, addHandle, enqueue, TaskRunner.enqueue] at hfailed
      split at hfailed <;> exact absurd hfailed hworking
  | drop i =>
      simp only [act] at hfailed
      split at hfailed <;> exact absurd hfailed hworking
  | wait i =>
      obtain ⟨idleSignalled, waiters, hact⟩ := x.exists_act_wait i
      rw [hact] at hfailed
      exact absurd hfailed hworking
  | _ => exact absurd hfailed hworking

theorem addTimer_of_handed? {t : Task B} (hhanded : x.handed? a = some t)
    (htimer : t.priority = .timer) :
    ∃ now delay repeats body, a = .addTimer now delay repeats body := by
  cases a with
  | addTimer now delay repeats body => exact ⟨now, delay, repeats, body, rfl⟩
  | addTask now priority name body =>
      cases hhanded
      split at htimer
      · cases htimer
      · next hpriority => exact absurd htimer hpriority
  | _ => cases hhanded

theorem addTimer_mem_of_live (name : String) (as : List (RunnerAction B R)) {t : Task B}
    (ht : t ∈ (actAll (new name) as).queue.live (actAll (new name) as).taken)
    (htimer : t.priority = .timer) :
    ∃ now delay repeats body, .addTimer now delay repeats body ∈ as := by
  induction as using List.reverseRecOn generalizing t with
  | nil => cases ht
  | append_singleton as a ih =>
      rw [actAll_concat] at ht
      rcases (moves_act _ a).origin ht with hhanded | ⟨s, hs, start, rfl⟩
      · obtain ⟨now, delay, repeats, body, rfl⟩ := addTimer_of_handed? hhanded htimer
        exact ⟨now, delay, repeats, body, by simp⟩
      · obtain ⟨now, delay, repeats, body, hmem⟩ := ih hs htimer
        exact ⟨now, delay, repeats, body, List.mem_append_left _ hmem⟩

/-- A runner that is given no timers does not fail. -/
theorem addTimer_mem_of_failed (name : String) (as : List (RunnerAction B R))
    (hfailed : (actAll (new name) as).runner.phase = .failed) :
    ∃ now delay repeats body, .addTimer now delay repeats body ∈ as := by
  induction as using List.reverseRecOn with
  | nil => cases hfailed
  | append_singleton as a ih =>
      suffices hmem : ∃ now delay repeats body, .addTimer now delay repeats body ∈ as by
        obtain ⟨now, delay, repeats, body, hmem⟩ := hmem
        exact ⟨now, delay, repeats, body, List.mem_append_left _ hmem⟩
      by_cases hbefore : (actAll (new name) as).runner.phase = .failed
      · exact ih hbefore
      · rw [actAll_concat] at hfailed
        obtain ⟨t, ht, htimer, -⟩ := far_timer_of_failed hbefore hfailed
        exact addTimer_mem_of_live name as (List.mem_append_left _ ht) htimer

end RunnerSystem

end MediaPipeline
