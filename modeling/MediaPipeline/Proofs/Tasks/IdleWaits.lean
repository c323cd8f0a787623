import Mathlib.Data.List.Induction
import Mathlib.Data.List.Perm.Subperm
import MediaPipeline.Proofs.Tasks.Runs

/-!
# Waiting for an idle runner

Threads that wait until a runner is idle share one event. The worker signals it when it falls asleep
with nothing pending, and each of the threads resets it before it looks whether it has to wait. So a
thread that comes later can erase a signal that an earlier one has not seen. With nothing pending
the later thread returns, the worker sleeps on, and the earlier thread is left waiting. Nothing else
leaves a thread behind, as long as no task is cancelled: a timer that is cancelled leaves the worker
in a sleep that is over when the timer would have been due.
-/

namespace MediaPipeline

variable {B R : Type}

/-- The worker sleeps, has not been woken, and has no timer to wake it. -/
structure TaskRunner.IsAsleep (r : TaskRunner B R) : Prop where
  idle : r.phase = .idle
  notNotified : r.notified = false
  noTimer : ∀ t ∈ r.queue.tasks, t.priority ≠ .timer

namespace RunnerSystem

/-- A thread waits for the event although nothing is pending, and nobody is left to signal it. -/
structure IsStuck (x : RunnerSystem B R) : Prop where
  waiting : .waiting ∈ x.waiters
  notSignalled : x.runner.idleSignalled = false
  notPending : x.runner.hasPendingWork = false
  asleep : x.runner.IsAsleep

/-- A thread resets the event when the worker has signalled it for the last time and another thread
that waits has not seen it. -/
structure Erases (x : RunnerSystem B R) (a : RunnerAction B R) : Prop where
  resets : ∃ i, a = .wait i ∧ x.waiters[i]? = some .resetting
  waiting : .waiting ∈ x.waiters
  signalled : x.runner.idleSignalled = true
  notPending : x.runner.hasPendingWork = false
  asleep : x.runner.IsAsleep

variable {x : RunnerSystem B R} {a : RunnerAction B R}

/-! ## One action -/

theorem IsStuck.of_step {now : Duration} {due : Bool}
    (h : (x.act (.step now due)).1.IsStuck) : x.IsStuck := by
  obtain ⟨hwaiting, hsignal, hpending, hasleep⟩ := h
  have hstep := x.runner.steps_step now due
  simp only [act] at hwaiting hsignal hpending hasleep
  generalize x.runner.step now due = next at hstep hsignal hpending hasleep
  cases hstep with
  | sleep hphase hrun hselect _ =>
      -- the worker falls asleep with a signal if nothing is pending
      have hnone : x.runner.hasPendingWork = false := hpending
      simp [hnone] at hsignal
  | rest _ => exact ⟨hwaiting, hsignal, hpending, hasleep⟩
  | _ => cases hasleep.idle

theorem mem_waiters_of_set {i : Nat} {w : IdleWait} (hw : w ≠ .waiting)
    (h : .waiting ∈ x.waiters.set i w) : .waiting ∈ x.waiters :=
  (List.mem_or_eq_of_mem_set h).resolve_right hw.symm

theorem IsStuck.of_wait {i : Nat} (h : (x.act (.wait i)).1.IsStuck) :
    x.IsStuck ∨ x.Erases (.wait i) := by
  cases hi : x.waiters[i]? with
  | none => exact .inl (by simpa [act, hi] using h)
  | some w =>
    obtain ⟨hwaiting, hsignal, hpending, hasleep⟩ := h
    simp only [act, hi] at hwaiting hsignal hpending hasleep
    cases w with
    | entering =>
        have hstill := mem_waiters_of_set (by simp only [IdleWait.step]; split <;> decide) hwaiting
        exact .inl ⟨hstill, hsignal, hpending, hasleep⟩
    | resetting =>
        have hstill := mem_waiters_of_set (by simp [IdleWait.step]) hwaiting
        have hbefore : x.runner.IsAsleep := ⟨hasleep.idle, hasleep.notNotified, hasleep.noTimer⟩
        cases hsignalled : x.runner.idleSignalled with
        | false => exact .inl ⟨hstill, hsignalled, hpending, hbefore⟩
        | true => exact .inr ⟨⟨i, rfl, hi⟩, hstill, hsignalled, hpending, hbefore⟩
    | testing =>
        -- with nothing pending this thread does not wait
        have hnone : x.runner.hasPendingWork = false := hpending
        have hstill := mem_waiters_of_set (by simp [IdleWait.step, hnone]) hwaiting
        exact .inl ⟨hstill, hsignal, hpending, hasleep⟩
    | waiting => exact .inl ⟨List.mem_of_getElem? hi, hsignal, hpending, hasleep⟩
    | returned =>
        have hstill := mem_waiters_of_set (by simp [IdleWait.step]) hwaiting
        exact .inl ⟨hstill, hsignal, hpending, hasleep⟩

/-- Adding a task wakes the worker, or is refused. -/
theorem IsStuck.of_enqueue {now delay : Duration} {priority : TaskPriority} {name : String}
    {repeats : Bool} {body : B} (h : (x.enqueue now priority name delay repeats body).IsStuck) :
    x.IsStuck := by
  obtain ⟨hwaiting, hsignal, hpending, hasleep⟩ := h
  cases hrun : x.runner.running with
  | true => simpa [enqueue, TaskRunner.enqueue, hrun] using hasleep.notNotified
  | false =>
    simp only [enqueue, TaskRunner.enqueue, hrun] at hsignal hpending hasleep
    exact ⟨hwaiting, hsignal, hpending, hasleep.idle, hasleep.notNotified, hasleep.noTimer⟩

/-- Nothing but a reset leaves a thread behind. -/
theorem IsStuck.of_act (hcancel : ∀ id, a ≠ .cancel id) (h : (x.act a).1.IsStuck) :
    x.IsStuck ∨ x.Erases a := by
  cases a with
  | step now due => exact .inl h.of_step
  | bodyReturns result =>
      left
      simp only [act, TaskRunner.bodyReturned] at h
      split at h
      · cases h.asleep.idle
      · exact h
  | addTask now priority name body =>
      obtain ⟨hwaiting, hsignal, hpending, hidle, hnotified, htimer⟩ := h
      exact .inl (IsStuck.of_enqueue ⟨hwaiting, hsignal, hpending, hidle, hnotified, htimer⟩)
  | addTimer now delay repeats body => exact .inl (IsStuck.of_enqueue h)
  | cancel id => exact absurd rfl (hcancel id)
  | drop i =>
      left
      simp only [act] at h
      split at h
      · obtain ⟨hwaiting, hsignal, hpending, hidle, hnotified, htimer⟩ := h
        exact ⟨hwaiting, hsignal, hpending, hidle, hnotified, htimer⟩
      · exact h
  | stop => cases h.asleep.notNotified
  | callWait =>
      obtain ⟨hwaiting, hsignal, hpending, hasleep⟩ := h
      exact .inl ⟨by simpa [act] using hwaiting, hsignal, hpending, hasleep⟩
  | wait i => exact h.of_wait

theorem Erases.isStuck (h : x.Erases a) : (x.act a).1.IsStuck := by
  obtain ⟨⟨i, rfl, hi⟩, hwaiting, -, hpending, hidle, hnotified, htimer⟩ := h
  have hstill : .waiting ∈ x.waiters.set i .testing := by
    obtain ⟨j, hj⟩ := List.mem_iff_getElem?.mp hwaiting
    have hne : i ≠ j := by
      rintro rfl
      exact absurd (hi.symm.trans hj) (by decide)
    exact List.mem_of_getElem? ((List.getElem?_set_ne hne).trans hj)
  simp only [act, hi, IdleWait.step]
  exact ⟨hstill, rfl, hpending, hidle, hnotified, htimer⟩

/-! ## Runs -/

theorem exists_erases_of_isStuck {name : String} {as : List (RunnerAction B R)}
    (hcancel : ∀ id, .cancel id ∉ as) (h : (actAll (new name) as).IsStuck) :
    ∃ before a, before ++ [a] <+: as ∧ (actAll (new name) before).Erases a := by
  induction as using List.reverseRecOn with
  | nil => simpa [actAll, new] using h.waiting
  | append_singleton as a ih =>
      have hact : ((actAll (new name) as).act a).1.IsStuck := by simpa [actAll] using h
      rcases hact.of_act (fun id ha => hcancel id (by simp [ha])) with hearlier | herases
      · obtain ⟨before, b, hprefix, herases⟩ :=
          ih (fun id hid => hcancel id (List.mem_append_left _ hid)) hearlier
        exact ⟨before, b, hprefix.trans (List.prefix_append as [a]), herases⟩
      · exact ⟨as, a, List.prefix_rfl, herases⟩

/-- A run in which no task is cancelled leaves a thread behind exactly if a thread resets the event
after the worker has signalled it for the last time and before another that waits has seen it. -/
theorem isStuck_iff_erases (name : String) (as : List (RunnerAction B R))
    (hcancel : ∀ id, .cancel id ∉ as) :
    (∃ before, before <+: as ∧ (actAll (new name) before).IsStuck) ↔
      ∃ before a, before ++ [a] <+: as ∧ (actAll (new name) before).Erases a := by
  constructor
  · rintro ⟨reached, hreached, hstuck⟩
    have hkept : ∀ id, .cancel id ∉ reached := fun id hid => hcancel id (hreached.subset hid)
    obtain ⟨before, a, hprefix, herases⟩ := exists_erases_of_isStuck hkept hstuck
    exact ⟨before, a, hprefix.trans hreached, herases⟩
  · rintro ⟨before, a, hprefix, herases⟩
    exact ⟨before ++ [a], hprefix, by simpa [actAll] using herases.isStuck⟩

/-- A thread waits for a task. The worker has done the task, signalled the event and fallen asleep
before the thread goes on. -/
def taskDone : List (RunnerAction Unit Unit) :=
  [.addTask 0 .internal "render" (), .callWait, .wait 0, .wait 0, .wait 0, .step 0 false,
    .bodyReturns (), .step 0 false, .step 0 false]

theorem isStuck_iff_erases_oneCall :
    (∀ id, .cancel id ∉ taskDone ++ [.wait 0]) ∧
      ((∃ before, before <+: taskDone ++ [.wait 0] ∧ (actAll (new "media") before).IsStuck) ↔
        ∃ before a, before ++ [a] <+: taskDone ++ [.wait 0] ∧
          (actAll (new "media") before).Erases a) :=
  have hcancel : ∀ id, .cancel id ∉ taskDone ++ [.wait 0] := by simp [taskDone]
  ⟨hcancel, isStuck_iff_erases "media" (taskDone ++ [.wait 0]) hcancel⟩

/-- A second thread that comes now erases the signal and returns, and the first waits on. -/
theorem isStuck_of_second_call :
    (actAll (new "media")
      (taskDone ++ [.callWait, .wait 1, .wait 1, .wait 1, .wait 0])).IsStuck :=
  ⟨by decide, by decide, by decide, ⟨by decide, by decide, by decide⟩⟩

/-- With never more than one call under way, no thread is left behind. -/
theorem not_isStuck_of_one_call {name : String} {as : List (RunnerAction B R)}
    (hcancel : ∀ id, .cancel id ∉ as)
    (hone : ∀ before, before <+: as →
      (actAll (new name) before).waiters.countP (· != .returned) ≤ 1) :
    ¬ (actAll (new name) as).IsStuck := by
  intro hstuck
  obtain ⟨before, a, hprefix, herases⟩ := exists_erases_of_isStuck hcancel hstuck
  obtain ⟨i, -, hi⟩ := herases.resets
  have htwo : List.Subperm [.resetting, .waiting] (actAll (new name) before).waiters := by
    refine List.subperm_of_subset (by decide) fun w hw => ?_
    rcases List.mem_pair.mp hw with rfl | rfl
    · exact List.mem_of_getElem? hi
    · exact herases.waiting
  have hcount := htwo.countP_le (· != .returned)
  have hbound := hone before ((List.prefix_append before [a]).trans hprefix)
  exact absurd (Nat.le_trans hcount hbound) (by decide)

end RunnerSystem

end MediaPipeline
