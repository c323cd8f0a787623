import Mathlib.Data.List.Nodup
import Mathlib.Data.Prod.Lex
import Mathlib.Tactic.Common
import MediaPipeline.Task.Queue

/-!
# Turns of tasks

Tasks go in the order of their turns, ready or not: the highest tier first, the earlier of two
timers, and of two tasks that differ in neither that which was added first. A queue gives out the
task that has the first turn, once that task is ready. It fails if it holds a timer that would fire
later than any time.
-/

namespace MediaPipeline

variable {B : Type}

namespace TaskPriority

theorem tier_injective : Function.Injective tier := by
  intro p q h
  cases p <;> cases q <;> cases h <;> rfl

theorem tier_eq_zero {p : TaskPriority} : p.tier = 0 ↔ p = .timer := by
  cases p <;> decide

end TaskPriority

namespace Task

/-- The tier, from the highest on, the time when a timer fires, and the number. The least goes
first. -/
def turn (t : Task B) : ℕᵒᵈ ×ₗ ℕ ×ₗ ℕ :=
  toLex (.toDual t.priority.tier, toLex (if t.priority = .timer then t.fireNanos else 0, t.id))

variable {t u : Task B} {now f : Duration}

theorem turn_lt_of_tier_lt (h : u.priority.tier < t.priority.tier) : t.turn < u.turn :=
  Prod.Lex.toLex_lt_toLex.mpr (.inl (OrderDual.toDual_lt_toDual.mpr h))

theorem turn_lt_of_timer (ht : t.priority ≠ .timer) (hu : u.priority = .timer) :
    t.turn < u.turn := by
  apply turn_lt_of_tier_lt
  rw [TaskPriority.tier_eq_zero.mpr hu]
  exact Nat.pos_of_ne_zero (mt TaskPriority.tier_eq_zero.mp ht)

theorem turn_lt_iff_of_priority_eq (h : t.priority = u.priority) :
    t.turn < u.turn ↔
      if t.priority = .timer then
        t.fireNanos < u.fireNanos ∨ (t.fireNanos = u.fireNanos ∧ t.id < u.id)
      else t.id < u.id := by
  simp only [turn, h, Prod.Lex.toLex_lt_toLex, lt_irrefl, true_and, false_or]
  split_ifs <;> simp

/-- What the worker compares is the turn. -/
theorem runsBefore_iff : t.runsBefore u = true ↔ t.turn < u.turn := by
  unfold runsBefore
  by_cases hpriority : t.priority = u.priority
  · rw [if_neg (not_not.mpr hpriority), turn_lt_iff_of_priority_eq hpriority]
    split_ifs <;> simp
  · rw [if_pos hpriority, decide_eq_true_iff]
    refine ⟨turn_lt_of_tier_lt, fun h => ?_⟩
    have hle : u.priority.tier ≤ t.priority.tier := Prod.Lex.monotone_fst _ _ h.le
    exact lt_of_le_of_ne hle fun heq => hpriority (TaskPriority.tier_injective heq).symm

theorem isMeasured_iff :
    t.isMeasured = true ↔ (t.priority = .timer → ∃ f, t.fireTime? = some f) := by
  by_cases htimer : t.priority = .timer <;> simp [isMeasured, htimer, Option.isSome_iff_exists]

theorem isReady_iff : t.isReady now = true ↔ (t.priority = .timer → t.fireNanos ≤ now.nanos) := by
  by_cases htimer : t.priority = .timer <;> simp [isReady, htimer]

theorem isReady_eq_false_iff :
    t.isReady now = false ↔ t.priority = .timer ∧ now.nanos < t.fireNanos := by
  rw [← Bool.not_eq_true, isReady_iff]
  simp

/-- A task that is not ready has its turn after every task that is. -/
theorem turn_lt_of_isReady (ht : t.isReady now = true) (hu : u.isReady now = false) :
    t.turn < u.turn := by
  obtain ⟨hutimer, hlate⟩ := isReady_eq_false_iff.mp hu
  by_cases htimer : t.priority = .timer
  · rw [turn_lt_iff_of_priority_eq (htimer.trans hutimer.symm), if_pos htimer]
    exact .inl (lt_of_le_of_lt (isReady_iff.mp ht htimer) hlate)
  · exact turn_lt_of_timer htimer hutimer

end Task

namespace TaskQueue

variable {now : Duration} {ts rest : List (Task B)} {t : Task B}

theorem turn_le_of_mem {before after : List (Task B)} (hbefore : ∀ u ∈ before, t.turn < u.turn)
    (hafter : ∀ u ∈ after, t.turn ≤ u.turn) : ∀ u ∈ before ++ t :: after, t.turn ≤ u.turn := by
  intro u hu
  rcases List.mem_append.mp hu with hu | hu
  · exact (hbefore u hu).le
  · rcases List.mem_cons.mp hu with rfl | hu
    · exact le_rfl
    · exact hafter u hu

theorem select_eq_none_iff : select now ts = none ↔ ∀ t ∈ ts, t.isReady now = false := by
  fun_induction select now ts <;> simp_all

/-- The chosen task is ready, none has its turn before it, and none that was before it in the queue
shares its turn. -/
theorem split_of_select (h : select now ts = some (t, rest)) :
    t.isReady now = true ∧
      ∃ before after, ts = before ++ t :: after ∧ rest = before ++ after ∧
        (∀ u ∈ before, t.turn < u.turn) ∧ ∀ u ∈ after, t.turn ≤ u.turn := by
  fun_induction select now ts generalizing t rest with
  | case1 => cases h
  | case2 u us hnone hready ih =>
      obtain ⟨rfl, rfl⟩ := Prod.mk.inj (Option.some.inj h)
      have hlate : ∀ v ∈ us, u.turn ≤ v.turn := fun v hv =>
        (Task.turn_lt_of_isReady hready (select_eq_none_iff.mp hnone v hv)).le
      exact ⟨hready, [], us, rfl, rfl, by simp, hlate⟩
  | case3 => cases h
  | case4 u us best others hbest hfirst ih =>
      obtain ⟨rfl, rfl⟩ := Prod.mk.inj (Option.some.inj h)
      obtain ⟨-, before, after, rfl, -, hbefore, hafter⟩ := ih hbest
      rw [Bool.and_eq_true, Bool.not_eq_true', ← Bool.not_eq_true, Task.runsBefore_iff,
        not_lt] at hfirst
      refine ⟨hfirst.1, [], before ++ best :: after, rfl, rfl, by simp, fun v hv => ?_⟩
      exact hfirst.2.trans (turn_le_of_mem hbefore hafter v hv)
  | case5 u us best others hbest hlater ih =>
      obtain ⟨rfl, rfl⟩ := Prod.mk.inj (Option.some.inj h)
      obtain ⟨hready, before, after, rfl, rfl, hbefore, hafter⟩ := ih hbest
      have hhead : best.turn < u.turn := by
        cases huready : u.isReady now with
        | false => exact Task.turn_lt_of_isReady hready huready
        | true =>
          rw [← Task.runsBefore_iff]
          simpa [huready] using hlater
      exact ⟨hready, u :: before, after, rfl, rfl, List.forall_mem_cons.mpr ⟨hhead, hbefore⟩,
        hafter⟩

theorem perm_of_select (h : select now ts = some (t, rest)) : ts.Perm (t :: rest) := by
  obtain ⟨-, before, after, rfl, rfl, -⟩ := split_of_select h
  exact List.perm_middle

theorem takeNext?_eq_none_iff {q : TaskQueue B} :
    q.takeNext? now = none ↔ ∃ t ∈ q.tasks, t.priority = .timer ∧ t.fireTime? = none := by
  unfold takeNext?
  split_ifs with hmeasured
  · refine iff_of_false nofun ?_
    rintro ⟨t, ht, htimer, hnone⟩
    obtain ⟨f, hf⟩ := Task.isMeasured_iff.mp (List.all_eq_true.mp hmeasured t ht) htimer
    exact Option.some_ne_none f (hf.symm.trans hnone)
  · simpa [List.all_eq_true, Task.isMeasured_iff, Option.eq_none_iff_forall_ne_some] using hmeasured

theorem takeNext?_eq_some_iff {q : TaskQueue B} {chosen : Option (Task B × TaskQueue B)} :
    q.takeNext? now = some chosen ↔ (∀ t ∈ q.tasks, t.isMeasured = true) ∧
      (select now q.tasks).map (fun (t, tasks) =>
        (t, { q with tasks, running := some ⟨t.id, t.repeats, false⟩ })) = chosen := by
  simp only [takeNext?, Option.ite_none_right_eq_some, Option.some_inj, List.all_eq_true]

end TaskQueue

end MediaPipeline
