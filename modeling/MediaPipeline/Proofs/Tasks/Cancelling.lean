import MediaPipeline.Proofs.Tasks.Moves

/-!
# Cancelling tasks

A call that cancels a task finds it in the queue, or with the worker, or nowhere. From the queue it
takes the task out, and of one that the worker has it leaves word that the task is not to come back.
A run of a task starts when the worker takes the task out of the queue, under the lock that the call
takes too. So after the call no run of it starts.
-/

namespace MediaPipeline

variable {B R : Type}

namespace TaskQueue

theorem eraseP_id {ts : List (Task B)} (hnodup : (ts.map Task.id).Nodup) (id : Nat) :
    ts.eraseP (·.id = id) = ts.filter (·.id ≠ id) := by
  induction ts with
  | nil => rfl
  | cons t ts ih =>
    obtain ⟨hhead, htail⟩ := List.nodup_cons.mp hnodup
    by_cases hid : t.id = id
    · have hothers : ts.filter (·.id ≠ id) = ts := by
        refine List.filter_eq_self.mpr fun u hu => decide_eq_true fun hsame => hhead ?_
        exact List.mem_map.mpr ⟨u, hu, hsame.trans hid.symm⟩
      rw [List.eraseP_cons_of_pos (by simpa using hid),
        List.filter_cons_of_neg (by simpa using hid), hothers]
    · rw [List.eraseP_cons_of_neg (by simpa using hid),
        List.filter_cons_of_pos (by simpa using hid), ih htail]

/-- The call takes out the task with its number, and no other. -/
theorem IsNumbered.tasks_cancel {q : TaskQueue B} {taken : Option (Task B)}
    (h : q.IsNumbered taken) (id : Nat) :
    (q.cancel id).2.tasks = q.tasks.filter (·.id ≠ id) :=
  eraseP_id h.nodup_tasks id

theorem running_cancel {q : TaskQueue B} {r : RunningTask} (h : q.running = some r) (id : Nat) :
    (q.cancel id).2.running = some { r with cancelled := r.cancelled || decide (r.id = id) } := by
  by_cases hid : r.id = id <;> simp [cancel, h, hid]

end TaskQueue

namespace RunnerSystem

/-- A call has cancelled the task with this number, a number that had been given out before. -/
def Cancelled (name : String) (as : List (RunnerAction B R)) (id : Nat) : Prop :=
  ∃ before, before ++ [.cancel id] <+: as ∧ id < (actAll (new name) before).queue.nextId

variable {name : String} {as : List (RunnerAction B R)} {a : RunnerAction B R} {id : Nat}

theorem cancelled_concat : Cancelled name (as ++ [a]) id ↔
    Cancelled name as id ∨ (a = .cancel id ∧ id < (actAll (new name) as).queue.nextId) := by
  simp only [Cancelled, List.prefix_concat_iff]
  constructor
  · rintro ⟨before, hlast | hbefore, hid⟩
    · obtain ⟨rfl, hcall⟩ := List.append_inj' hlast rfl
      exact .inr ⟨(List.singleton_inj.mp hcall).symm, hid⟩
    · exact .inl ⟨before, hbefore, hid⟩
  · rintro (⟨before, hbefore, hid⟩ | ⟨rfl, hid⟩)
    · exact ⟨before, .inr hbefore, hid⟩
    · exact ⟨as, .inl rfl, hid⟩

/-- No cancelled task is queued, and the word that is left about the task with the worker says
whether that one is cancelled. -/
structure Heeds (cancelled : Nat → Prop) (q : TaskQueue B) (taken : Option (Task B)) : Prop where
  below : ∀ id, cancelled id → id < q.nextId
  queued : ∀ t ∈ q.tasks, ¬ cancelled t.id
  running : ∀ t, taken = some t →
    ∃ word, q.running = some ⟨t.id, t.repeats, word⟩ ∧ (word = true ↔ cancelled t.id)

/-- The word has been heeded if the task comes back. -/
theorem Heeds.not_cancelled {cancelled : Nat → Prop} {q : TaskQueue B} {taken : Option (Task B)}
    {t : Task B} (h : Heeds cancelled q taken) (htaken : taken = some t)
    (hkept : (q.running.map RunningTask.cancelled).getD false = false) : ¬ cancelled t.id := by
  obtain ⟨word, hrunning, hword⟩ := h.running t htaken
  rw [hrunning] at hkept
  exact fun hid => Bool.false_ne_true (hkept.symm.trans (hword.mpr hid))

theorem Moves.heeds {x : RunnerSystem B R} {q : TaskQueue B} {taken : Option (Task B)}
    {started : List (Task B)} {before after : Nat → Prop} (hmove : x.Moves a q taken started)
    (hnumbered : x.queue.IsNumbered x.taken) (h : Heeds before x.queue x.taken)
    (hafter : ∀ id, after id ↔ before id ∨ (a = .cancel id ∧ id < x.queue.nextId)) :
    Heeds after q taken := by
  have hsame (hcall : a.cancelled? = none) : after = before := by
    refine funext fun id => propext ((hafter id).trans (or_iff_left ?_))
    rintro ⟨rfl, -⟩
    cases hcall
  cases hmove with
  | hand hhanded =>
      obtain rfl := hsame (cancelled?_of_handed? hhanded)
      refine ⟨fun id hid => (h.below id hid).trans (Nat.lt_succ_self _), fun t ht => ?_, h.running⟩
      rcases List.mem_append.mp ht with hold | hnew
      · exact h.queued t hold
      · obtain rfl := List.mem_singleton.mp hnew
        exact fun hid => (h.below _ hid).ne (id_of_handed? hhanded)
  | refuse hhanded =>
      obtain rfl := hsame (cancelled?_of_handed? hhanded)
      exact ⟨fun id hid => (h.below id hid).trans (Nat.lt_succ_self _), h.queued, h.running⟩
  | start htaken hselect =>
      obtain rfl := hsame rfl
      have hperm := TaskQueue.perm_of_select hselect
      refine ⟨h.below, fun u hu => h.queued u (hperm.mem_iff.mpr (List.mem_cons_of_mem _ hu)), ?_⟩
      rintro _ ⟨⟩
      have hqueued := h.queued _ (hperm.mem_iff.mpr List.mem_cons_self)
      exact ⟨false, rfl, iff_of_false Bool.false_ne_true hqueued⟩
  | @requeue now _ t htaken _ hkept =>
      obtain rfl := hsame rfl
      have hnot := h.not_cancelled htaken hkept
      refine ⟨h.below, fun u hu => ?_, nofun⟩
      rcases List.mem_append.mp hu with hold | hback
      · exact h.queued u hold
      · obtain rfl := List.mem_singleton.mp hback
        exact hnot
  | finish _ =>
      obtain rfl := hsame rfl
      exact ⟨h.below, h.queued, nofun⟩
  | drain _ =>
      obtain rfl := hsame rfl
      exact ⟨h.below, nofun, nofun⟩
  | cancel id =>
      refine ⟨fun i hi => ?_, fun t ht => ?_, fun t ht => ?_⟩
      · rcases (hafter i).mp hi with hold | hnew
        · exact h.below i hold
        · exact hnew.2
      · rw [hnumbered.tasks_cancel, List.mem_filter, decide_eq_true_iff] at ht
        rw [hafter]
        rintro (hold | ⟨hcall, -⟩)
        · exact h.queued t ht.1 hold
        · exact ht.2 (RunnerAction.cancel.inj hcall).symm
      · -- The number of the task with the worker has been given out, so the call counts.
        obtain ⟨word, hrunning, hword⟩ := h.running t ht
        have hlt : t.id < x.queue.nextId := hnumbered.below t (by simp [TaskQueue.live, ht])
        refine ⟨_, TaskQueue.running_cancel hrunning id, ?_⟩
        rw [hafter, ← hword, Bool.or_eq_true, decide_eq_true_iff]
        simp [hlt, eq_comm]
  | keep _ hcall =>
      obtain rfl := hsame hcall
      exact h

theorem heeds_actAll (name : String) (as : List (RunnerAction B R)) :
    Heeds (Cancelled name as) (actAll (new name) as).queue (actAll (new name) as).taken := by
  induction as using List.reverseRecOn with
  | nil =>
    refine ⟨?_, nofun, nofun⟩
    rintro id ⟨before, hprefix, -⟩
    simp at hprefix
  | append_singleton as a ih =>
    rw [actAll_concat]
    exact (moves_act _ a).heeds (isNumbered_actAll name as) ih fun id => cancelled_concat

/-- After a call that cancels a task, the task is not queued and no run of it starts. The call takes
no other task out of the queue, and a task that repeats is queued again unless it is cancelled
itself. -/
theorem cancelled_never_starts (name : String) (as : List (RunnerAction B R)) :
    let x : RunnerSystem B R := actAll (new name) as
    (∀ id, Cancelled name as id → (∀ t ∈ x.runner.queue.tasks, t.id ≠ id) ∧
      ∀ a t, .started t ∈ (x.act a).2 → t.id ≠ id) ∧
    (∀ id, (x.act (.cancel id)).1.runner.queue.tasks =
      x.runner.queue.tasks.filter (·.id ≠ id)) ∧
    ∀ t now due, x.runner.phase = .finishing t → t.repeats = true →
      (Cancelled name as t.id →
        (x.act (.step now due)).1.runner.queue.tasks = x.runner.queue.tasks) ∧
      (¬ Cancelled name as t.id →
        (x.act (.step now due)).1.runner.queue.tasks =
          x.runner.queue.tasks ++ [{ t with start := now }]) := by
  intro x
  have hnumbered : x.queue.IsNumbered x.taken := isNumbered_actAll name as
  have hheeds : Heeds (Cancelled name as) x.queue x.taken := heeds_actAll name as
  refine ⟨fun id hid => ⟨?_, ?_⟩, fun id => hnumbered.tasks_cancel id, ?_⟩
  · rintro t ht rfl
    exact hheeds.queued t ht hid
  · rintro a t hstarted rfl
    exact hheeds.queued t ((x.moves_act a).mem_of_started (RunnerEvent.mem_started hstarted)) hid
  · intro t now due hphase hrepeats
    obtain ⟨word, hrunning, hword⟩ := hheeds.running t (by rw [taken, hphase]; rfl)
    have hrunning : x.runner.queue.running = some ⟨t.id, t.repeats, word⟩ := hrunning
    rw [← hword]
    cases word <;>
      simp [act, TaskRunner.step, TaskRunner.finish, TaskQueue.finishRunning, TaskQueue.push,
        hphase, hrunning, hrepeats]

/-- The first of two timers that repeat cancels itself when it is run. -/
def selfCancel : List (RunnerAction Unit Nat) :=
  [.addTimer 0 5 true (), .addTimer 0 6 true (), .step 5 false, .cancel 0, .bodyReturns 0]

/-- Then the other is run, and the first is cancelled once more. -/
def lateCancel : List (RunnerAction Unit Nat) :=
  selfCancel ++ [.step 5 false, .step 6 false, .cancel 0, .bodyReturns 0]

theorem cancelled_never_starts_from_body :
    (let x : RunnerSystem Unit Nat := actAll (new "media") selfCancel
      ∃ t, x.runner.phase = .finishing t ∧ t.repeats = true ∧ t.id = 0 ∧
        Cancelled "media" selfCancel 0 ∧
        (x.act (.step 5 false)).1.runner.queue.tasks = x.runner.queue.tasks ∧
        ∀ a u, .started u ∈ (x.act a).2 → u.id ≠ 0) ∧
    (let x : RunnerSystem Unit Nat := actAll (new "media") lateCancel
      ∃ t, x.runner.phase = .finishing t ∧ t.repeats = true ∧ t.id = 1 ∧
        ¬ Cancelled "media" lateCancel 1 ∧
        (x.act (.step 9 false)).1.runner.queue.tasks =
          x.runner.queue.tasks ++ [{ t with start := 9 }]) := by
  constructor
  · intro x
    have hcancelled : Cancelled "media" selfCancel 0 :=
      ⟨selfCancel.take 3, ⟨[.bodyReturns 0], rfl⟩, by decide⟩
    obtain ⟨hstays, -, hback⟩ := cancelled_never_starts "media" selfCancel
    exact ⟨_, rfl, rfl, rfl, hcancelled, (hback _ 5 false rfl rfl).1 hcancelled,
      (hstays 0 hcancelled).2⟩
  · intro x
    have hkept : ¬ Cancelled "media" lateCancel 1 := by
      rintro ⟨before, hcall, -⟩
      have hmem : .cancel 1 ∈ lateCancel := hcall.subset (by simp)
      revert hmem
      decide
    obtain ⟨-, -, hback⟩ := cancelled_never_starts "media" lateCancel
    exact ⟨_, rfl, rfl, rfl, hkept, (hback _ 9 false rfl rfl).2 hkept⟩

end RunnerSystem

end MediaPipeline
