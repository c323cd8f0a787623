import MediaPipeline.Proofs.Tasks.Cancelling
import MediaPipeline.Proofs.Tasks.Order

/-!
# Waiting until the work is done

A thread that waits until a runner is idle may find the event signalled from an earlier time, and
other threads may reset it and take its signal away. But the thread resets the event itself before
it looks whether it has to wait, and the worker signals it only when nothing is pending. So a signal
that the thread meets afterwards is younger than its call, and says that all tasks which had been
added before the call are gone: each of them has been run to its end, or was cancelled.
-/

namespace MediaPipeline

variable {B R : Type}

namespace RunnerSystem

variable {x : RunnerSystem B R} {a : RunnerAction B R} {n i : Nat} {w : IdleWait}

/-! ## Signals -/

/-- A signal is an old one, or there is no work. -/
theorem signalled_act (hdrained : x.runner.IsDrained)
    (hrunning : (x.act a).1.runner.running = true)
    (hsignalled : (x.act a).1.runner.idleSignalled = true) :
    x.runner.idleSignalled = true ∨ (x.act a).1.runner.hasPendingWork = false := by
  cases a with
  | step now due =>
      have hstep := x.runner.steps_step now due
      simp only [act] at hrunning hsignalled ⊢
      generalize x.runner.step now due = next at hstep hrunning hsignalled
      cases hstep with
      | sleep _ _ _ =>
          rcases Bool.or_eq_true_iff.mp hsignalled with hold | hnone
          · exact .inl hold
          · exact .inr ((Bool.not_eq_true' _).mp hnone)
      | exit hphase =>
          have hstopped := hdrained
          simp only [TaskRunner.IsDrained, hphase] at hstopped
          exact absurd (hstopped.1.symm.trans hrunning) Bool.false_ne_true
      | _ => exact .inl hsignalled
  | bodyReturns result =>
      refine .inl ?_
      simp only [act, TaskRunner.bodyReturned] at hsignalled
      split at hsignalled <;> exact hsignalled
  | addTask | addTimer =>
      refine .inl ?_
      simp only [act, addHandle, enqueue, TaskRunner.enqueue] at hsignalled
      split at hsignalled <;> exact hsignalled
  | drop j =>
      refine .inl ?_
      simp only [act] at hsignalled
      split at hsignalled <;> exact hsignalled
  | cancel | stop | callWait => exact .inl hsignalled
  | wait j =>
      refine .inl ?_
      simp only [act] at hsignalled
      split at hsignalled
      · next w _ => cases w <;> simp_all [IdleWait.step]
      · exact hsignalled

/-- A thread that waits goes on by itself. -/
theorem waiter_act (x : RunnerSystem B R) (a : RunnerAction B R) (hi : x.waiters[i]? = some w) :
    (x.act a).1.waiters[i]? = some w ∨
      (x.act a).1 = { x with
        runner := (w.step x.runner).1
        waiters := x.waiters.set i (w.step x.runner).2 } := by
  have hlt : i < x.waiters.length := (List.getElem?_eq_some_iff.mp hi).1
  cases a with
  | wait j =>
      by_cases hj : j = i
      · subst hj
        exact .inr (by simp [act, hi])
      · refine .inl ?_
        simp only [act]
        split
        · rw [List.getElem?_set_ne hj, hi]
        · exact hi
  | callWait => exact .inl (by rw [act, List.getElem?_append_left hlt, hi])
  | drop j =>
      refine .inl ?_
      simp only [act]
      split <;> exact hi
  | _ => exact .inl hi

/-! ## Clear of old tasks -/

/-- No task that runs once and has a number below `n` runs or is still to run. -/
def IsClear (n : Nat) (x : RunnerSystem B R) : Prop :=
  ∀ t ∈ x.queue.live x.taken, t.runsOnce = true → n ≤ t.id

theorem isClear_of_not_pending {cancelled : Nat → Prop} (hheeds : Heeds cancelled x.queue x.taken)
    (hnone : x.runner.hasPendingWork = false) : x.IsClear n := by
  intro t ht honce
  obtain ⟨hqueued, hrunning⟩ := Bool.or_eq_false_iff.mp hnone
  suffices hrepeats : t.repeats = true by simp [Task.runsOnce, hrepeats] at honce
  rcases List.mem_append.mp ht with hqueue | htaken
  · simpa using List.any_eq_false.mp hqueued t hqueue
  · obtain ⟨word, hword, -⟩ := hheeds.running t (by simpa using htaken)
    have hword : x.runner.queue.running = some ⟨t.id, t.repeats, word⟩ := hword
    simpa [hword] using hrunning

theorem IsClear.act (h : x.IsClear n) (hn : n ≤ x.queue.nextId) (a : RunnerAction B R) :
    (x.act a).1.IsClear n := by
  intro t ht honce
  rcases (x.moves_act a).origin ht with hhanded | ⟨s, hs, start, rfl⟩
  · exact hn.trans (id_of_handed? hhanded).ge
  · exact h s hs honce

/-! ## Calls under way -/

/-- What a thread may rely on that has called when all numbers below `n` had been given out. -/
def Learns (n : Nat) (x : RunnerSystem B R) : IdleWait → Prop
  | .entering | .resetting => True
  | .testing | .waiting => x.runner.idleSignalled = true → x.IsClear n
  | .returned => x.IsClear n

theorem Learns.step (h : x.Learns n w) {cancelled : Nat → Prop}
    (hheeds : Heeds cancelled x.queue x.taken) (hrunning : x.runner.running = true)
    {waiters : List IdleWait} :
    Learns n { x with runner := (w.step x.runner).1, waiters } (w.step x.runner).2 := by
  cases w with
  | entering =>
      rw [IdleWait.step, if_pos hrunning]
      trivial
  | resetting => exact fun hsignalled => absurd hsignalled Bool.false_ne_true
  | testing =>
      rw [IdleWait.step, hrunning, Bool.and_true]
      split_ifs with hpending
      · exact h
      · exact isClear_of_not_pending hheeds (Bool.not_eq_true _ ▸ hpending)
  | waiting =>
      rw [IdleWait.step]
      split_ifs with hsignalled
      · exact h hsignalled
      · exact h
  | returned => exact h

theorem Learns.act (h : x.Learns n w) (hn : n ≤ x.queue.nextId) (hdrained : x.runner.IsDrained)
    {cancelled : Nat → Prop} (hheeds : Heeds cancelled (x.act a).1.queue (x.act a).1.taken)
    (hrunning : (x.act a).1.runner.running = true) : (x.act a).1.Learns n w := by
  have hsignal (hwaits : x.runner.idleSignalled = true → x.IsClear n)
      (hsignalled : (x.act a).1.runner.idleSignalled = true) : (x.act a).1.IsClear n := by
    rcases signalled_act hdrained hrunning hsignalled with hold | hnone
    · exact (hwaits hold).act hn a
    · exact isClear_of_not_pending hheeds hnone
  cases w with
  | entering | resetting => trivial
  | testing | waiting => exact hsignal h
  | returned => exact IsClear.act h hn a

theorem running_of_act (hrunning : (x.act a).1.runner.running = true) :
    x.runner.running = true := by
  by_contra hstopped
  have hstill := (started_act_of_stopped (a := a) (Bool.not_eq_true _ ▸ hstopped)).1
  exact Bool.false_ne_true (hstill.symm.trans hrunning)

theorem isDrained_actAll (name : String) (as : List (RunnerAction B R)) :
    (actAll (new name) as).runner.IsDrained := by
  induction as using List.reverseRecOn with
  | nil => trivial
  | append_singleton as a ih =>
      rw [actAll_concat]
      exact isDrained_act ih

theorem actAll_append (x : RunnerSystem B R) (as bs : List (RunnerAction B R)) :
    x.actAll (as ++ bs) = (x.actAll as).actAll bs :=
  List.foldl_append ..

theorem nextId_le_actAll (x : RunnerSystem B R) (as : List (RunnerAction B R)) :
    x.queue.nextId ≤ (x.actAll as).queue.nextId := by
  induction as generalizing x with
  | nil => exact le_rfl
  | cons a as ih => exact ((x.nextId_act a).symm ▸ Nat.le_add_right _ _).trans (ih _)

/-- The thread that called last has its place in every later state, and may rely on what it has
learnt. -/
theorem exists_learns (name : String) (before after : List (RunnerAction B R)) :
    let called : RunnerSystem B R := actAll (new name) before
    let x : RunnerSystem B R := actAll (new name) (before ++ .callWait :: after)
    x.runner.running = true →
      ∃ w, x.waiters[called.waiters.length]? = some w ∧ x.Learns called.queue.nextId w := by
  intro called
  induction after using List.reverseRecOn with
  | nil =>
      intro x _
      have hx : x = (called.act .callWait).1 := actAll_concat ..
      exact ⟨.entering, by simp [hx, act], trivial⟩
  | append_singleton after a ih =>
      generalize hbetween : before ++ .callWait :: after = as at ih
      have hconcat : before ++ .callWait :: (after ++ [a]) = as ++ [a] := by simp [← hbetween]
      have hnext : called.queue.nextId ≤ (actAll (new name) as).queue.nextId := by
        rw [← hbetween, actAll_append]
        exact nextId_le_actAll _ _
      have hheeds := heeds_actAll name (as ++ [a])
      rw [hconcat, actAll_concat] at *
      intro x hrunning
      have hbefore := running_of_act hrunning
      obtain ⟨w, hw, hlearns⟩ := ih hbefore
      rcases waiter_act _ a hw with hstill | hgoes
      · exact ⟨w, hstill, hlearns.act hnext (isDrained_actAll name as) hheeds hrunning⟩
      · have hlt := (List.getElem?_eq_some_iff.mp hw).1
        have hwaiters : x.waiters = _ := congrArg RunnerSystem.waiters hgoes
        refine ⟨_, ?_, hgoes ▸ hlearns.step (heeds_actAll name as) hbefore⟩
        rw [hwaiters, List.getElem?_set_self hlt]

theorem isClear_of_returned (name : String) (before after : List (RunnerAction B R)) :
    let called : RunnerSystem B R := actAll (new name) before
    let x : RunnerSystem B R := actAll (new name) (before ++ .callWait :: after)
    x.runner.running = true → x.waiters[called.waiters.length]? = some .returned →
      x.IsClear called.queue.nextId := by
  intro called x hrunning hreturned
  obtain ⟨w, hw, hlearns⟩ := exists_learns name before after hrunning
  obtain rfl : w = .returned := Option.some.inj (hw.symm.trans hreturned)
  exact hlearns

/-! ## Tasks that are given up -/

variable {t : Task B}

/-- Until the runner is stopped, only a call that cancels a task has one in its hands. -/
theorem released_act (hrunning : (x.act a).1.runner.running = true)
    (ht : t ∈ (x.act a).1.released) :
    t ∈ x.released ∨ (a = .cancel t.id ∧ t ∈ x.queue.tasks) := by
  have hbefore := running_of_act hrunning
  cases a with
  | addTask | addTimer =>
      refine .inl ?_
      simpa [act, addHandle, enqueue, TaskRunner.enqueue, hbefore] using ht
  | cancel id =>
      rcases List.mem_append.mp ht with hold | hcancelled
      · exact .inl hold
      · have hfind : x.runner.queue.tasks.find? (·.id = id) = some t := by
          simpa [TaskQueue.cancel] using hcancelled
        have hid : t.id = id := by simpa using List.find?_some hfind
        exact .inr ⟨hid ▸ rfl, List.mem_of_find?_eq_some hfind⟩
  | drop j =>
      simp only [act] at ht
      split at ht
      · exact .inl (List.mem_of_mem_eraseIdx ht)
      · exact .inl ht
  | wait j =>
      obtain ⟨idleSignalled, waiters, hact⟩ := x.exists_act_wait j
      rw [hact] at ht
      exact .inl ht
  | _ => exact .inl ht

/-- Until the runner is stopped, only calls drop tasks. -/
theorem dropped_act (hdrained : x.runner.IsDrained) (hrunning : x.runner.running = true)
    (ht : (t, .dropped) ∈ x.ended a) : t ∈ x.released := by
  have hevent : t ∈ (x.act a).2.filterMap RunnerEvent.dropped? := by
    rcases List.mem_append.mp ht with hreturned | hdropped
    · cases a <;> simp [returned] at hreturned
    · simpa using hdropped
  cases a with
  | step now due =>
      have hstep := x.runner.steps_step now due
      simp only [act] at hevent
      generalize x.runner.step now due = next at hstep hevent
      cases hstep with
      | drop hphase =>
          simp only [TaskRunner.IsDrained, hphase] at hdrained
          exact absurd (hdrained.1.symm.trans hrunning) Bool.false_ne_true
      | _ => cases hevent
  | drop j =>
      simp only [act] at hevent
      split at hevent
      · next u hj =>
          obtain rfl : t = u := by simpa [List.filterMap_cons] using hevent
          exact List.mem_of_getElem? hj
      · cases hevent
  | wait j =>
      obtain ⟨idleSignalled, waiters, hact⟩ := x.exists_act_wait j
      rw [hact] at hevent
      cases hevent
  | _ => cases hevent

/-- What the worker has in its hands is taken out of the queue, as long as it does not clear it. -/
theorem mem_live_of_unfinished (hdrained : x.runner.IsDrained) (hrunning : x.runner.running = true)
    (ht : t ∈ x.runner.unfinished) : t ∈ x.queue.live x.taken := by
  rcases List.mem_append.mp ht with hqueue | hphase
  · exact List.mem_append_left _ hqueue
  · refine List.mem_append_right _ ?_
    rw [taken]
    cases hat : x.runner.phase with
    | executing u | finishing u =>
        simp_all [RunnerPhase.tasks, RunnerPhase.taken]
    | dropping ts =>
        simp only [TaskRunner.IsDrained, hat] at hdrained
        exact absurd (hdrained.1.symm.trans hrunning) Bool.false_ne_true
    | _ => simp [hat, RunnerPhase.tasks] at hphase

end RunnerSystem

namespace TaskLedger

open RunnerSystem

theorem actAll_concat (x : TaskLedger B R) (as : List (RunnerAction B R)) (a : RunnerAction B R) :
    x.actAll (as ++ [a]) = (x.actAll as).act a :=
  List.foldl_concat ..

theorem handed_subset_actAll (x : TaskLedger B R) (as : List (RunnerAction B R)) :
    x.handed ⊆ (x.actAll as).handed := by
  induction as generalizing x with
  | nil => exact List.Subset.refl _
  | cons a as ih => exact List.Subset.trans (List.subset_append_left _ _) (ih (x.act a))

/-- Until the runner is stopped, a task is not given up unless it has been cancelled. -/
theorem cancelled_of_released_or_dropped (name : String) (as : List (RunnerAction B R)) :
    let x : TaskLedger B R := (TaskLedger.new name).actAll as
    x.system.runner.running = true →
      ∀ t, t ∈ x.system.released ∨ (t, .dropped) ∈ x.ended → Cancelled name as t.id := by
  induction as using List.reverseRecOn with
  | nil =>
      rintro x - t (hreleased | hended)
      · cases hreleased
      · cases hended
  | append_singleton as a ih =>
      rw [actAll_concat]
      intro x hrunning t ht
      have hbefore := running_of_act hrunning
      have hsystem : ((TaskLedger.new name).actAll as).system =
          RunnerSystem.actAll (.new name) as := system_actAll _ as
      rw [cancelled_concat]
      rcases ht with hreleased | hended
      · rcases released_act hrunning hreleased with hold | ⟨rfl, hqueued⟩
        · exact .inl (ih hbefore t (.inl hold))
        · have hnumbered := isNumbered_actAll name as
          rw [hsystem] at hqueued
          exact .inr ⟨rfl, hnumbered.below t (List.mem_append_left _ hqueued)⟩
      · rcases List.mem_append.mp hended with hold | hnew
        · exact .inl (ih hbefore t (.inr hold))
        · have hdrained := isDrained_actAll name as
          rw [← hsystem] at hdrained
          exact .inl (ih hbefore t (.inl (dropped_act hdrained hbefore hnew)))

/-- A task that is no longer with the runner has been run to its end or was given up unstarted. -/
theorem Accounts.returned_or_given_up {x : TaskLedger B R} (h : x.Accounts) {t : Task B}
    (ht : t ∈ x.handed) (hgone : t ∉ x.system.runner.unfinished) :
    (∃ result, x.endsOf t.id = [.returned result]) ∨
      ((t ∈ x.system.released ∨ (t, .dropped) ∈ x.ended) ∧ t ∉ x.started) := by
  have hlength := h.length_endsOf_le ht
  cases hends : x.endsOf t.id with
  | nil =>
      have hnotEnded (e : TaskEnd R) : (t, e) ∉ x.ended := fun he => by
        have hmem : e ∈ x.endsOf t.id := TaskEnd.mem_having.mpr ⟨t, he, rfl⟩
        rw [hends] at hmem
        cases hmem
      refine .inr ⟨.inl ?_, fun hstarted => ?_⟩
      · rcases List.mem_append.mp (h.mem_known_of_handed ht) with hheld | hended
        · exact (List.mem_append.mp hheld).resolve_left hgone
        · obtain ⟨⟨u, e⟩, he, rfl⟩ := List.mem_map.mp hended
          exact absurd he (hnotEnded e)
      · rcases h.returned_or_executed_of_started hstarted with ⟨result, hended⟩ | hexecuted
        · exact hnotEnded _ hended
        · exact hgone (List.mem_append_right _ (RunnerPhase.executed_subset _ hexecuted))
  | cons e es =>
      obtain rfl : es = [] := by simpa [hends] using hlength
      cases e with
      | returned result => exact .inl ⟨result, rfl⟩
      | dropped =>
          have hended := h.ended_of_endsOf ht (e := .dropped) (by simp [hends])
          exact .inr ⟨.inr hended, h.not_started_of_dropped ht hends⟩

/-- When a call returns that waits until the runner is idle, and the runner has not been stopped,
every task that runs once and had been handed over before the call has been run to its end, or was
cancelled before it was started. -/
theorem finished_when_wait_returns (name : String) (before after : List (RunnerAction B R)) :
    let called : TaskLedger B R := (TaskLedger.new name).actAll before
    let x : TaskLedger B R := (TaskLedger.new name).actAll (before ++ .callWait :: after)
    x.system.runner.running = true →
      x.system.waiters[called.system.waiters.length]? = some .returned →
        ∀ t ∈ called.handed, (∃ result, x.endsOf t.id = [.returned result]) ∨
          (Cancelled name (before ++ .callWait :: after) t.id ∧ t ∉ x.started) := by
  intro called x hrunning hreturned t ht
  have hcalled : called.Accounts := (Accounts.new name).actAll before
  have h : x.Accounts := (Accounts.new name).actAll _
  have hhanded : t ∈ x.handed := by
    have happend : x = called.actAll (.callWait :: after) := List.foldl_append ..
    exact happend ▸ handed_subset_actAll called _ ht
  have hclear : x.system.IsClear called.system.queue.nextId := by
    have hsystem (as : List (RunnerAction B R)) :
        ((TaskLedger.new name).actAll as).system = RunnerSystem.actAll (.new name) as :=
      system_actAll _ as
    have hreturns := isClear_of_returned name before after
    simp only [← hsystem] at hreturns
    exact hreturns hrunning hreturned
  have hgone : t ∉ x.system.runner.unfinished := fun hmem => by
    have hlive := mem_live_of_unfinished h.drained hrunning hmem
    exact (hcalled.below t ht).not_ge (hclear t hlive (h.runsOnce_of_handed hhanded))
  refine (h.returned_or_given_up hhanded hgone).imp_right ?_
  rintro ⟨hgivenUp, hnotStarted⟩
  exact ⟨cancelled_of_released_or_dropped name _ hrunning t hgivenUp, hnotStarted⟩

/-- Work that is queued after the worker has said that there is none. -/
def queuedWhenIdle : List (RunnerAction Unit Nat) :=
  [.step 0 false, .addTimer 0 50 false (), .addTask 0 .internal "render" ()]

/-- A thread comes to wait, the worker runs the task, and the timer is cancelled before it is
due. -/
def drainedByCancel : List (RunnerAction Unit Nat) :=
  [.wait 0, .wait 0, .wait 0, .step 1 false, .step 1 false, .bodyReturns 7, .step 1 false,
    .cancel 0, .step 1 false, .wait 0]

theorem finished_when_wait_returns_after_stale_signal :
    let called : TaskLedger Unit Nat := (TaskLedger.new "media").actAll queuedWhenIdle
    let as := queuedWhenIdle ++ .callWait :: drainedByCancel
    let x : TaskLedger Unit Nat := (TaskLedger.new "media").actAll as
    called.system.runner.idleSignalled = true ∧ x.system.runner.running = true ∧
      x.system.waiters[called.system.waiters.length]? = some .returned ∧
      called.handed.map Task.name = ["timer", "render"] ∧
      ∀ t ∈ called.handed, (∃ result, x.endsOf t.id = [.returned result]) ∨
        (Cancelled "media" as t.id ∧ t ∉ x.started) := by
  intro called as x
  have hrunning : x.system.runner.running = true := by decide
  have hreturned : x.system.waiters[called.system.waiters.length]? = some .returned := by decide
  refine ⟨by decide, hrunning, hreturned, by decide, ?_⟩
  exact finished_when_wait_returns "media" queuedWhenIdle drainedByCancel hrunning hreturned

end TaskLedger

end MediaPipeline
