import Mathlib.Data.List.Nodup
import MediaPipeline.Proofs.Tasks.Moves

/-!
# Handles of tasks

A handle is told once what became of its task: the result of its body, or that it was dropped
without having been started. A ledger of a whole run has every task that was handed over, every
start and every end. A task starts when the worker takes it out of the queue, which it does under
the lock, and after a stop it takes none.
-/

namespace MediaPipeline

variable {B R : Type}

namespace TaskEnd

theorem having_append (id : Nat) (es es' : List (Task B × TaskEnd R)) :
    having id (es ++ es') = having id es ++ having id es' := by
  simp [having]

theorem told_append (es es' : List (TaskEnd R)) :
    told (es ++ es') = match told es with | .pending => told es' | o => o := by
  cases es with
  | nil => rfl
  | cons e es => cases e <;> rfl

end TaskEnd

namespace TaskRunner

/-- A handle tells the first end, and so it does after more ends. -/
theorem handles_resolveAll {r : TaskRunner B R} {ids : List Nat}
    {es : List (Task B × TaskEnd R)}
    (h : r.handles = ids.map fun id => (id, TaskEnd.told (TaskEnd.having id es)))
    (es' : List (Task B × TaskEnd R)) :
    (r.resolveAll es').handles =
      ids.map fun id => (id, TaskEnd.told (TaskEnd.having id (es ++ es'))) := by
  induction es' generalizing r es with
  | nil => simpa [resolveAll] using h
  | cons e es' ih =>
      obtain ⟨t, e⟩ := e
      have hone : (r.resolve t.id e.outcome).handles =
          ids.map fun id => (id, TaskEnd.told (TaskEnd.having id (es ++ [(t, e)]))) := by
        simp only [resolve, h, List.map_map]
        refine List.map_congr_left fun id _ => Prod.ext rfl ?_
        have hlast : TaskEnd.told (TaskEnd.having id [(t, e)]) =
            if id = t.id then e.outcome else .pending := by
          by_cases hid : id = t.id
          · simp [hid, TaskEnd.having, TaskEnd.told]
          · simp [hid, Ne.symm hid, TaskEnd.having, TaskEnd.told]
        rw [TaskEnd.having_append, TaskEnd.told_append, hlast]
        cases hbefore : TaskEnd.told (TaskEnd.having id es) <;> simp [hbefore]
      simpa [resolveAll] using ih hone

end TaskRunner

structure TaskLedger (B R : Type) where
  system : RunnerSystem B R
  /-- The tasks that run once, as they were handed over. -/
  handed : List (Task B)
  /-- Of these, the ones with a handle. -/
  added : List (Task B)
  started : List (Task B)
  ended : List (Task B × TaskEnd R)

namespace TaskLedger

def new (name : String) : TaskLedger B R := ⟨.new name, [], [], [], []⟩

def act (x : TaskLedger B R) (a : RunnerAction B R) : TaskLedger B R where
  system := (x.system.act a).1
  handed := x.handed ++ (x.system.handed? a).toList.filter Task.runsOnce
  added := x.added ++ (x.system.added? a).toList
  started := x.started ++ (x.system.act a).2.filterMap RunnerEvent.started?
  ended := x.ended ++ x.system.ended a

def actAll (x : TaskLedger B R) (as : List (RunnerAction B R)) : TaskLedger B R :=
  as.foldl act x

theorem system_actAll (x : TaskLedger B R) (as : List (RunnerAction B R)) :
    (x.actAll as).system = x.system.actAll as := by
  induction as generalizing x with
  | nil => rfl
  | cons a as ih => exact ih (x.act a)

/-- How the task with this number has ended. -/
def endsOf (x : TaskLedger B R) (id : Nat) : List (TaskEnd R) := TaskEnd.having id x.ended

def known (x : TaskLedger B R) : List (Task B) := x.system.held ++ x.ended.map Prod.fst

/-- The ledger agrees with the runner. Every task that runs once is known once, still held or ended,
and no other task has its number. -/
structure Accounts (x : TaskLedger B R) : Prop where
  once : (x.known.filter Task.runsOnce).Perm x.handed
  nodup : (x.handed.map Task.id).Nodup
  below : ∀ t ∈ x.handed, t.id < x.system.runner.queue.nextId
  repeats : ∀ t ∈ x.known, t.repeats = true →
    t.id < x.system.runner.queue.nextId ∧ t.id ∉ x.handed.map Task.id
  added : x.added.Sublist x.handed
  started : x.started = x.ended.filterMap TaskEnd.returned? ++ x.system.runner.phase.executed
  handles : x.system.runner.handles =
    (x.added.map Task.id).map fun id => (id, TaskEnd.told (x.endsOf id))
  drained : x.system.runner.IsDrained

variable {x : TaskLedger B R} {a : RunnerAction B R}

theorem Accounts.new (name : String) : (new name : TaskLedger B R).Accounts where
  once := .refl _
  nodup := .nil
  below := by simp [TaskLedger.new]
  repeats := by
    simp [TaskLedger.new, known, RunnerSystem.new, RunnerSystem.held, TaskRunner.unfinished,
      TaskRunner.new, TaskQueue.empty, RunnerPhase.tasks]
  added := .refl _
  started := rfl
  handles := rfl
  drained := trivial

namespace Accounts

theorem keeps_known (x : TaskLedger B R) (a : RunnerAction B R) :
    Keeps (x.known ++ (x.system.handed? a).toList) (x.act a).known := by
  have hkeeps := (x.system.keeps_act a).aside (x.ended.map Prod.fst)
  refine (Keeps.of_perm ?_).trans (by simpa [known, act] using hkeeps)
  simpa [known] using List.perm_append_comm.append_left x.system.held

theorem id_lt (h : x.Accounts) {t : Task B} (ht : t ∈ x.known) :
    t.id < x.system.runner.queue.nextId := by
  cases hrepeats : t.repeats with
  | true => exact (h.repeats t ht hrepeats).1
  | false => exact h.below t (h.once.mem_iff.mp (by simp [ht, Task.runsOnce, hrepeats]))

/-- A number that a task which runs once was given is no other task's. -/
theorem eq_of_id (h : x.Accounts) {t u : Task B} (ht : t ∈ x.handed) (hu : u ∈ x.known)
    (hid : u.id = t.id) : u = t := by
  cases hrepeats : u.repeats with
  | true => exact absurd (List.mem_map.mpr ⟨t, ht, hid.symm⟩) (h.repeats u hu hrepeats).2
  | false =>
    have huhanded : u ∈ x.handed := h.once.mem_iff.mp (by simp [hu, Task.runsOnce, hrepeats])
    exact List.inj_on_of_nodup_map h.nodup huhanded ht hid

theorem id_of_new {t : Task B} (ht : t ∈ (x.system.handed? a).toList) :
    t.id = x.system.runner.queue.nextId :=
  RunnerSystem.id_of_handed? (by simpa using ht)

theorem id_lt_of_new {t : Task B} (ht : t ∈ (x.system.handed? a).toList) :
    t.id < (x.act a).system.runner.queue.nextId := by
  have hnext := x.system.nextId_act a
  have hid := id_of_new ht
  have hlength := List.length_pos_of_mem ht
  simp only [TaskLedger.act]
  omega

theorem nextId_le_act (x : TaskLedger B R) (a : RunnerAction B R) :
    x.system.runner.queue.nextId ≤ (x.act a).system.runner.queue.nextId :=
  (x.system.nextId_act a).symm ▸ Nat.le_add_right ..

/-- A task with a handle runs once. -/
theorem runsOnce_of_added {t : Task B} (ht : x.system.added? a = some t) :
    x.system.handed? a = some t ∧ t.runsOnce = true := by
  cases a with
  | addTask now priority name body =>
      cases ht
      exact ⟨rfl, rfl⟩
  | _ => cases ht

theorem ended_of_added {t : Task B} (ht : x.system.added? a = some t) :
    x.system.ended a = [] := by
  cases a with
  | addTask => rfl
  | _ => cases ht

/-- A number that is new has not ended. -/
theorem endsOf_of_added (h : x.Accounts) {t : Task B} (ht : x.system.added? a = some t) :
    (x.act a).endsOf t.id = [] := by
  have hnew := RunnerSystem.id_of_handed? (runsOnce_of_added ht).1
  refine List.eq_nil_iff_forall_not_mem.mpr fun e he => ?_
  obtain ⟨u, hu, hid⟩ := TaskEnd.mem_having.mp he
  rw [TaskLedger.act, ended_of_added ht, List.append_nil] at hu
  have hlt : u.id < _ := h.id_lt (List.mem_append_right _ (List.mem_map.mpr ⟨(u, e), hu, rfl⟩))
  omega

theorem act (h : x.Accounts) (a : RunnerAction B R) : (x.act a).Accounts where
  once := by
    have hnew := h.once.append_right ((x.system.handed? a).toList.filter Task.runsOnce)
    rw [← List.filter_append] at hnew
    exact (keeps_known x a).once.trans hnew
  nodup := by
    simp only [TaskLedger.act, List.map_append]
    refine h.nodup.append ?_ ?_
    · cases x.system.handed? a with
      | none => simp
      | some t => cases hrepeats : t.repeats <;> simp [Task.runsOnce, hrepeats]
    · intro id hid hnew
      obtain ⟨t, ht, rfl⟩ := List.mem_map.mp hid
      obtain ⟨u, hu, hut⟩ := List.mem_map.mp hnew
      have hlt := h.below t ht
      have heq := id_of_new (List.mem_of_mem_filter hu)
      omega
  below t ht := by
    rcases List.mem_append.mp ht with hold | hnew
    · exact Nat.lt_of_lt_of_le (h.below t hold) (nextId_le_act x a)
    · exact id_lt_of_new (List.mem_of_mem_filter hnew)
  repeats t ht hrepeats := by
    obtain ⟨s, hs, hsrepeats, hst⟩ := (keeps_known x a).repeats t ht hrepeats
    rw [← hst]
    rcases List.mem_append.mp hs with hknown | hnew
    · refine ⟨Nat.lt_of_lt_of_le (h.id_lt hknown) (nextId_le_act x a), fun hid => ?_⟩
      obtain ⟨u, hu, hus⟩ := List.mem_map.mp hid
      rcases List.mem_append.mp hu with hold | hnew
      · exact (h.repeats s hknown hsrepeats).2 (List.mem_map.mpr ⟨u, hold, hus⟩)
      · have hlt := h.id_lt hknown
        have heq := id_of_new (List.mem_of_mem_filter hnew)
        omega
    · refine ⟨id_lt_of_new hnew, fun hid => ?_⟩
      obtain ⟨u, hu, hus⟩ := List.mem_map.mp hid
      have heq := id_of_new hnew
      rcases List.mem_append.mp hu with hold | hu
      · have hlt := h.below u hold
        omega
      · obtain ⟨hmem, honce⟩ := List.mem_filter.mp hu
        have hsame : u = s := by simp_all
        simp [Task.runsOnce, hsame, hsrepeats] at honce
  added := by
    cases hadded : x.system.added? a with
    | none => simpa [TaskLedger.act, hadded] using h.added.trans (List.sublist_append_left _ _)
    | some t =>
      obtain ⟨hhanded, honce⟩ := runsOnce_of_added hadded
      simpa [TaskLedger.act, hadded, hhanded, honce] using h.added
  started := by
    simp only [TaskLedger.act, h.started, List.filterMap_append, List.append_assoc]
    rw [x.system.executed_act a]
  handles := by
    have hold := TaskRunner.handles_resolveAll h.handles (x.system.ended a)
    simp only [TaskLedger.act, x.system.handles_act a, hold, List.map_append, List.map_map]
    refine congrArg₂ (· ++ ·) rfl (List.map_congr_left fun t ht => Prod.ext rfl ?_)
    have hadded : x.system.added? a = some t := by simpa using ht
    exact (congrArg TaskEnd.told (h.endsOf_of_added hadded)).symm
  drained := RunnerSystem.isDrained_act h.drained

theorem actAll (h : x.Accounts) (as : List (RunnerAction B R)) : (x.actAll as).Accounts := by
  induction as generalizing x with
  | nil => exact h
  | cons a as ih => exact ih (h.act a)

theorem runsOnce_of_handed (h : x.Accounts) {t : Task B} (ht : t ∈ x.handed) :
    t.runsOnce = true :=
  (List.mem_filter.mp (h.once.mem_iff.mpr ht)).2

theorem nodup_once (h : x.Accounts) :
    (x.system.held.filter Task.runsOnce ++ (x.ended.map Prod.fst).filter Task.runsOnce).Nodup := by
  rw [← List.filter_append]
  exact h.once.nodup_iff.mpr h.nodup.of_map

theorem length_endsOf_le (h : x.Accounts) {t : Task B} (ht : t ∈ x.handed) :
    (x.endsOf t.id).length ≤ 1 := by
  have honce := h.runsOnce_of_handed ht
  have hsame : ∀ u ∈ (x.ended.map Prod.fst).filter (·.id = t.id), u = t := by
    intro u hu
    obtain ⟨hended, hid⟩ := List.mem_filter.mp hu
    exact h.eq_of_id ht (List.mem_append_right _ hended) (by simpa using hid)
  have hfilter : (x.ended.map Prod.fst).filter (·.id = t.id) =
      ((x.ended.map Prod.fst).filter Task.runsOnce).filter (·.id = t.id) := by
    rw [List.filter_filter]
    refine List.filter_congr fun u hu => ?_
    by_cases hid : u.id = t.id
    · have hut : u = t := hsame u (List.mem_filter.mpr ⟨hu, by simpa using hid⟩)
      simp [hut, honce]
    · simp [hid]
  have hnodup : ((x.ended.map Prod.fst).filter (·.id = t.id)).Nodup := by
    rw [hfilter]
    exact h.nodup_once.of_append_right.filter _
  rw [List.eq_replicate_of_mem hsame, List.nodup_replicate] at hnodup
  simpa [endsOf, TaskEnd.having, List.filter_map, Function.comp_def] using hnodup

theorem mem_known_of_handed (h : x.Accounts) {t : Task B} (ht : t ∈ x.handed) : t ∈ x.known :=
  (List.mem_filter.mp (h.once.mem_iff.mpr ht)).1

theorem ended_of_endsOf (h : x.Accounts) {t : Task B} (ht : t ∈ x.handed) {e : TaskEnd R}
    (he : e ∈ x.endsOf t.id) : (t, e) ∈ x.ended := by
  obtain ⟨u, hu, hid⟩ := TaskEnd.mem_having.mp he
  have hknown : u ∈ x.known := List.mem_append_right _ (List.mem_map.mpr ⟨(u, e), hu, rfl⟩)
  rwa [h.eq_of_id ht hknown hid] at hu

/-- With nothing left to run or to drop, every task has ended. -/
theorem endsOf_ne_nil (h : x.Accounts) {t : Task B} (ht : t ∈ x.handed)
    (hexited : x.system.runner.phase = .exited) (hreleased : x.system.released = []) :
    x.endsOf t.id ≠ [] := by
  have hdrained := h.drained
  simp only [TaskRunner.IsDrained, hexited] at hdrained
  have hknown := h.mem_known_of_handed ht
  simp only [known, RunnerSystem.held, TaskRunner.unfinished, hdrained.2, hexited, hreleased,
    RunnerPhase.tasks, List.nil_append] at hknown
  obtain ⟨⟨u, e⟩, hu, rfl⟩ := List.mem_map.mp hknown
  exact List.ne_nil_of_mem (TaskEnd.mem_having.mpr ⟨u, hu, rfl⟩)

theorem outcomeOf_eq (h : x.Accounts) {t : Task B} (ht : t ∈ x.added) :
    x.system.runner.outcomeOf t.id = some (TaskEnd.told (x.endsOf t.id)) := by
  rw [TaskRunner.outcomeOf, h.handles]
  exact List.lookup_graph (fun id => TaskEnd.told (x.endsOf id)) (List.mem_map_of_mem ht)

theorem returned_or_executed_of_started (h : x.Accounts) {t : Task B} (ht : t ∈ x.started) :
    (∃ result, (t, .returned result) ∈ x.ended) ∨ t ∈ x.system.runner.phase.executed := by
  rw [h.started] at ht
  refine (List.mem_append.mp ht).imp_left fun hreturned => ?_
  obtain ⟨⟨u, e⟩, hu, hut⟩ := List.mem_filterMap.mp hreturned
  cases e with
  | returned result =>
    obtain rfl : u = t := by simpa [TaskEnd.returned?] using hut
    exact ⟨result, hu⟩
  | dropped => cases hut

theorem not_started_of_dropped (h : x.Accounts) {t : Task B} (ht : t ∈ x.handed)
    (hends : x.endsOf t.id = [.dropped]) : t ∉ x.started := by
  intro hstarted
  rcases h.returned_or_executed_of_started hstarted with ⟨result, hreturned⟩ | hexecuted
  · have hmem : TaskEnd.returned result ∈ x.endsOf t.id :=
      TaskEnd.mem_having.mpr ⟨t, hreturned, rfl⟩
    simp [hends] at hmem
  · -- what runs is with the worker, and not among the tasks that have ended
    have honce := h.runsOnce_of_handed ht
    have hheld : t ∈ x.system.held :=
      List.mem_append_left _ (List.mem_append_right _ (RunnerPhase.executed_subset _ hexecuted))
    have hended := h.ended_of_endsOf ht (e := .dropped) (by simp [hends])
    refine List.disjoint_of_nodup_append h.nodup_once (a := t) ?_ ?_
    · exact List.mem_filter.mpr ⟨hheld, honce⟩
    · exact List.mem_filter.mpr ⟨List.mem_map_of_mem (f := Prod.fst) hended, honce⟩

end Accounts

theorem started_actAll_of_stopped {x : TaskLedger B R} (hstop : x.system.runner.running = false)
    (as : List (RunnerAction B R)) : (x.actAll as).started = x.started := by
  induction as generalizing x with
  | nil => rfl
  | cons a as ih =>
    obtain ⟨hstill, hnone⟩ := RunnerSystem.started_act_of_stopped (a := a) hstop
    calc
      (x.actAll (a :: as)).started = (x.act a).started := ih hstill
      _ = x.started := by simp [act, hnone]

/-- Every handle is told once what became of its task: its result if the task was started, and
that it was cancelled otherwise. After a stop no task starts, and when the worker has exited and
no call has a task in its hands every handle has been told. Without timers the worker does not leave
in any other way. -/
theorem handle_told_once (name : String) (as : List (RunnerAction B R)) :
    let x : TaskLedger B R := (new name).actAll as
    (x.system.runner.handles.map Prod.fst = x.added.map Task.id ∧ (x.added.map Task.id).Nodup) ∧
    (∀ t ∈ x.added,
      (x.endsOf t.id = [] ∧ x.system.runner.outcomeOf t.id = some .pending ∧
        ¬ (x.system.runner.phase = .exited ∧ x.system.released = [])) ∨
      (∃ result, x.endsOf t.id = [.returned result] ∧ t ∈ x.started ∧
        x.system.runner.outcomeOf t.id = some (.returned result)) ∨
      (x.endsOf t.id = [.dropped] ∧ t ∉ x.started ∧
        x.system.runner.outcomeOf t.id = some .cancelled)) ∧
    (∀ bs, (x.actAll (.stop :: bs)).started = x.started) ∧
    (x.system.runner.phase = .failed →
      ∃ now delay repeats body, .addTimer now delay repeats body ∈ as) := by
  intro x
  have h : x.Accounts := (Accounts.new name).actAll as
  refine ⟨⟨?_, h.nodup.sublist (h.added.map _)⟩, fun t ht => ?_, fun bs => ?_, fun hfailed => ?_⟩
  · simp [h.handles, Function.comp_def]
  · have hhanded := h.added.subset ht
    rw [h.outcomeOf_eq ht]
    have hlength := h.length_endsOf_le hhanded
    cases hends : x.endsOf t.id with
    | nil =>
      exact .inl ⟨rfl, rfl, fun hover => h.endsOf_ne_nil hhanded hover.1 hover.2 hends⟩
    | cons e es =>
      obtain rfl : es = [] := by simpa [hends] using hlength
      have hended := h.ended_of_endsOf hhanded (e := e) (by simp [hends])
      cases e with
      | returned result =>
        refine .inr (.inl ⟨result, rfl, ?_, rfl⟩)
        rw [h.started]
        exact List.mem_append_left _ (List.mem_filterMap.mpr ⟨_, hended, rfl⟩)
      | dropped => exact .inr (.inr ⟨rfl, h.not_started_of_dropped hhanded hends, rfl⟩)
  · have hstopped := started_actAll_of_stopped (x := x.act .stop) rfl bs
    exact hstopped.trans (List.append_nil _)
  · have hsystem : x.system = RunnerSystem.actAll (.new name) as := system_actAll _ as
    exact RunnerSystem.addTimer_mem_of_failed name as (hsystem ▸ hfailed)

example :
    ((new "media" : TaskLedger Unit Nat).actAll
      [.addTask 0 .internal "run" (), .addTask 0 .internal "queued" (), .step 0 false, .stop,
        .addTask 0 .events "late" (), .bodyReturns 7, .drop 0, .step 0 false, .step 0 false,
        .step 0 false]).system.runner.handles =
      [(0, .returned 7), (1, .cancelled), (2, .cancelled)] := by
  decide

end TaskLedger

end MediaPipeline
