import MediaPipeline.Proofs.Tasks.Handles
import MediaPipeline.Proofs.Tasks.Moves

/-!
# The order in which tasks start

Tasks of one tier that are not timers start in the order in which they were added: of the queued
ones that added first has the first turn, a new one comes after all of them, and none comes back. A
timer has its turn only when it is due and the queue holds nothing but timers.
-/

namespace MediaPipeline

variable {B R : Type}

def inTier (p : TaskPriority) (ts : List (Task B)) : List (Task B) := ts.filter (·.priority = p)

theorem inTier_append (p : TaskPriority) (ts us : List (Task B)) :
    inTier p (ts ++ us) = inTier p ts ++ inTier p us :=
  List.filter_append ..

theorem mem_inTier {p : TaskPriority} {ts : List (Task B)} {t : Task B} :
    t ∈ inTier p ts ↔ t ∈ ts ∧ t.priority = p := by
  simp [inTier]

/-- The tasks of a tier in a queue that has them in the order of their numbers: the worker takes the
first. -/
theorem TaskQueue.inTier_of_select {p : TaskPriority} {now : Duration} {ts rest : List (Task B)}
    {t : Task B} (hselect : select now ts = some (t, rest)) (hp : p ≠ .timer)
    (hsorted : ((inTier p ts).map Task.id).Pairwise (· < ·)) :
    inTier p ts = inTier p (t :: rest) := by
  obtain ⟨-, before, after, rfl, rfl, hbefore, -⟩ := split_of_select hselect
  by_cases hpriority : t.priority = p
  · -- Before `t` in the queue a task of its tier would have a lower number, so an earlier turn.
    have hnone : inTier p before = [] := by
      refine List.eq_nil_iff_forall_not_mem.mpr fun u hu => ?_
      obtain ⟨hmem, rfl⟩ := mem_inTier.mp hu
      have hturn := hbefore u hmem
      rw [Task.turn_lt_iff_of_priority_eq hpriority, if_neg (hpriority ▸ hp)] at hturn
      rw [inTier_append, List.map_append, List.pairwise_append] at hsorted
      have ht : t ∈ inTier u.priority (t :: after) := mem_inTier.mpr ⟨List.mem_cons_self, hpriority⟩
      have hid := hsorted.2.2 u.id (List.mem_map_of_mem hu) t.id (List.mem_map_of_mem ht)
      exact lt_asymm hturn hid
    calc
      inTier p (before ++ t :: after) = inTier p [t] ++ (inTier p before ++ inTier p after) := by
        rw [inTier_append, hnone, List.nil_append, List.nil_append, ← inTier_append,
          List.singleton_append]
      _ = inTier p (t :: (before ++ after)) := by
        rw [← inTier_append, ← inTier_append, List.singleton_append]
  · simp [inTier, hpriority]

namespace RunnerSystem

variable {x : RunnerSystem B R} {a : RunnerAction B R} {q : TaskQueue B}
  {taken : Option (Task B)} {started : List (Task B)} {t : Task B}

theorem timer_of_handed? (hhanded : x.handed? a = some t) (hrepeats : t.repeats = true) :
    t.priority = .timer := by
  cases a with
  | addTimer => cases hhanded; rfl
  | addTask => cases hhanded; cases hrepeats
  | _ => cases hhanded

def OnlyTimersRepeat (q : TaskQueue B) (taken : Option (Task B)) : Prop :=
  ∀ t ∈ q.live taken, t.repeats = true → t.priority = .timer

theorem Moves.onlyTimersRepeat (hmove : x.Moves a q taken started)
    (h : OnlyTimersRepeat x.queue x.taken) : OnlyTimersRepeat q taken := by
  intro t ht hrepeats
  rcases hmove.origin ht with hhanded | ⟨s, hs, start, rfl⟩
  · exact timer_of_handed? hhanded hrepeats
  · exact h s hs hrepeats

/-- What an action appends to the started tasks and leaves in the queue, of one tier, is what was in
the queue before, less what was dropped, and what was added. -/
theorem Moves.inTier_sublist (hmove : x.Moves a q taken started)
    (hrepeat : OnlyTimersRepeat x.queue x.taken) {p : TaskPriority} (hp : p ≠ .timer)
    (hsorted : ((inTier p x.queue.tasks).map Task.id).Pairwise (· < ·)) :
    (inTier p (started ++ q.tasks)).Sublist
      (inTier p (x.queue.tasks ++ (x.handed? a).toList.filter Task.runsOnce)) := by
  cases hmove with
  | @hand _ t hhanded =>
      rw [List.nil_append, inTier_append, inTier_append, hhanded]
      refine List.Sublist.append_left ?_ _
      cases hrepeats : t.repeats with
      | true =>
        have htimer := timer_of_handed? hhanded hrepeats
        simp [inTier, htimer, hp.symm]
      | false => simp [Task.runsOnce, hrepeats]
  | start _ hselect _ =>
      rw [List.singleton_append, ← TaskQueue.inTier_of_select hselect hp hsorted]
      exact (List.sublist_append_left _ _).filter _
  | @requeue now _ t htaken hrepeats _ =>
      have htimer : t.priority = .timer := hrepeat t (by simp [TaskQueue.live, htaken]) hrepeats
      have hnone : inTier p [{ t with start := now }] = [] := by simp [inTier, htimer, hp.symm]
      rw [List.nil_append, inTier_append, hnone, List.append_nil]
      exact (List.sublist_append_left _ _).filter _
  | drain _ => exact List.nil_sublist _
  | cancel id =>
      exact (List.eraseP_sublist.trans (List.sublist_append_left _ _)).filter _
  | refuse _ | finish _ | keep _ _ => exact (List.sublist_append_left _ _).filter _

end RunnerSystem

namespace TaskLedger

/-- Of every tier but the timers', the tasks that were started and after them those that are queued
stand as they were handed over. -/
structure InTurn (x : TaskLedger B R) : Prop where
  increasing : (x.handed.map Task.id).Pairwise (· < ·)
  onlyTimersRepeat : RunnerSystem.OnlyTimersRepeat x.system.queue x.system.taken
  sublist : ∀ p ≠ .timer, (inTier p (x.started ++ x.system.queue.tasks)).Sublist (inTier p x.handed)

variable {x : TaskLedger B R} {a : RunnerAction B R}

namespace InTurn

theorem new (name : String) : (new name : TaskLedger B R).InTurn :=
  ⟨.nil, nofun, fun _ _ => .refl _⟩

theorem increasing_queue (h : x.InTurn) {p : TaskPriority} (hp : p ≠ .timer) :
    ((inTier p x.system.queue.tasks).map Task.id).Pairwise (· < ·) := by
  have hqueue := (List.sublist_append_right x.started x.system.queue.tasks).filter (·.priority = p)
  exact h.increasing.sublist (((hqueue.trans (h.sublist p hp)).trans List.filter_sublist).map _)

theorem act (h : x.InTurn) (hbelow : ∀ t ∈ x.handed, t.id < x.system.queue.nextId)
    (a : RunnerAction B R) : (x.act a).InTurn where
  increasing := by
    simp only [TaskLedger.act, List.map_append]
    refine List.pairwise_append.mpr ⟨h.increasing, ?_, ?_⟩
    · cases x.system.handed? a with
      | none => simp
      | some t => cases hrepeats : t.repeats <;> simp [Task.runsOnce, hrepeats]
    · intro id hid id' hid'
      obtain ⟨t, ht, rfl⟩ := List.mem_map.mp hid
      obtain ⟨u, hu, rfl⟩ := List.mem_map.mp hid'
      rw [Accounts.id_of_new (List.mem_of_mem_filter hu)]
      exact hbelow t ht
  onlyTimersRepeat := (x.system.moves_act a).onlyTimersRepeat h.onlyTimersRepeat
  sublist p hp := by
    have hmove := (x.system.moves_act a).inTier_sublist h.onlyTimersRepeat hp
      (h.increasing_queue hp)
    have hbefore := h.sublist p hp
    simp only [TaskLedger.act, inTier_append, List.append_assoc] at hmove hbefore ⊢
    have hstarted := hmove.append_left (inTier p x.started)
    refine hstarted.trans ?_
    rw [← List.append_assoc]
    exact hbefore.append_right _

theorem actAll (h : x.InTurn) (haccounts : x.Accounts) (as : List (RunnerAction B R)) :
    (x.actAll as).InTurn := by
  induction as generalizing x with
  | nil => exact h
  | cons a as ih => exact ih (h.act haccounts.below a) (haccounts.act a)

end InTurn

end TaskLedger

end MediaPipeline
