import MediaPipeline.Proofs.Monitor.Polls

/-!
# Stopping the monitor

A call that stops the monitor asks the loop to wait and returns when the loop is parked. The loop
notes that it is parked when it begins to wait, and takes this back only when it begins a poll. So
the note is still there after a start that the loop has not seen yet, and a stop that comes then
returns at once; but the loop looks at what it is asked for before it begins a poll, and finds that
it has to wait.
-/

namespace MediaPipeline

namespace MonitorPhase

variable {T : Type}

/-- In a poll, or in the sleep after one. -/
def inRound : MonitorPhase T → Bool
  | checking | waiting | exited => false
  | _ => true

/-- Nothing goes on until the loop is woken, or ever. -/
def isParked : MonitorPhase T → Bool
  | waiting | exited => true
  | _ => false

theorem isParked_eq_true_iff {phase : MonitorPhase T} :
    phase.isParked = true ↔ phase = .waiting ∨ phase = .exited := by
  cases phase <;> simp [isParked]

theorem isParked_of_inRound {phase : MonitorPhase T} (h : phase.inRound = true) :
    phase.isParked = false := by
  cases phase <;> first | rfl | cases h

end MonitorPhase

namespace Monitor

variable {T : Type} {settings : PipelineSettings T} {m n : Monitor T} {a : MonitorAction T}
  {as : List (MonitorAction T)}

/-! ## One step of the loop -/

/-- The loop looks at what it is asked for, or goes on with its round and leaves the control alone.
-/
inductive LoopStep (m : Monitor T) : Monitor T → Prop
  | check : LoopStep m m.check
  | same : LoopStep m m
  | round {phase : MonitorPhase T} {ready : ReadyState} (hphase : m.phase.inRound = true)
      (hnext : phase.isParked = false) : LoopStep m { m with phase, ready }

/-- The loop is parked when it waits or is over. -/
theorem LoopStep.parked (h : LoopStep m n) (hm : m.parked = m.phase.isParked) :
    n.parked = n.phase.isParked := by
  cases h with
  | check =>
      unfold Monitor.check
      split_ifs <;> rfl
  | same => exact hm
  | round hphase hnext => rw [hm, MonitorPhase.isParked_of_inRound hphase, hnext]

theorem LoopStep.running (h : LoopStep m n) (hm : m.running = false) : n.running = false := by
  cases h with
  | check =>
      unfold Monitor.check
      split_ifs <;> exact hm
  | same => exact hm
  | round _ _ => exact hm

theorem LoopStep.isParked (h : LoopStep m n) (hrunning : m.running = false)
    (hphase : m.phase.isParked = true) : n.phase.isParked = true := by
  cases h with
  | check =>
      unfold Monitor.check
      split_ifs with hshutdown hrun
      · rfl
      · exact absurd hrun (by simp [hrunning])
      · rfl
  | same => exact hphase
  | round hround _ =>
      rw [MonitorPhase.isParked_of_inRound hround] at hphase
      cases hphase

theorem loopStep_wake (m : Monitor T) : LoopStep m m.wake := by
  unfold wake
  split
  · next hphase => exact .round (by rw [hphase]; rfl) rfl
  · exact .same

variable [MediaTime T]

theorem loopStep_step (settings : PipelineSettings T) (v : MonitorView T) (m : Monitor T) :
    LoopStep m (m.step settings v).1 := by
  obtain ⟨running, shutdown, parked, ready, phase⟩ := m
  cases phase with
  | checking | waiting => exact .check
  | readingBuffered | readingDecoded | readingTime | readingDuration | calling | sleeping =>
      exact .round rfl rfl
  | deciding r =>
      simp only [step]
      split <;> exact .round rfl rfl
  | classifying r =>
      simp only [step]
      split_ifs <;> exact .round rfl rfl
  | exited => exact .same

/-! ## Runs -/

theorem parked_act (hm : m.parked = m.phase.isParked) (a : MonitorAction T) :
    (m.act settings a).parked = (m.act settings a).phase.isParked := by
  cases a with
  | step v => exact (loopStep_step settings v m).parked hm
  | wake => exact (loopStep_wake m).parked hm
  | start =>
      rw [act, start]
      split_ifs <;> exact hm
  | requestStop => exact hm
  | requestShutdown => exact hm

theorem parked_actAll (hm : m.parked = m.phase.isParked) (as : List (MonitorAction T)) :
    (m.actAll settings as).parked = (m.actAll settings as).phase.isParked := by
  induction as generalizing m with
  | nil => exact hm
  | cons a as ih => exact ih (parked_act hm a)

theorem running_act (hm : m.running = false) (ha : a ≠ .start) :
    (m.act settings a).running = false := by
  cases a with
  | step v => exact (loopStep_step settings v m).running hm
  | wake => exact (loopStep_wake m).running hm
  | start => exact absurd rfl ha
  | requestStop => rfl
  | requestShutdown => exact hm

theorem running_actAll (hm : m.running = false) (has : .start ∉ as) :
    (m.actAll settings as).running = false := by
  induction as generalizing m with
  | nil => exact hm
  | cons a as ih =>
      obtain ⟨ha, has⟩ := not_or.mp (mt List.mem_cons.mpr has)
      exact ih (running_act hm (Ne.symm ha)) has

theorem isParked_act (hrunning : m.running = false) (hphase : m.phase.isParked = true)
    (ha : a ≠ .start) : (m.act settings a).phase.isParked = true := by
  cases a with
  | step v => exact (loopStep_step settings v m).isParked hrunning hphase
  | wake => exact (loopStep_wake m).isParked hrunning hphase
  | start => exact absurd rfl ha
  | requestStop => exact hphase
  | requestShutdown => exact hphase

theorem isParked_actAll (hrunning : m.running = false) (hphase : m.phase.isParked = true)
    (has : .start ∉ as) : (m.actAll settings as).phase.isParked = true := by
  induction as generalizing m with
  | nil => exact hphase
  | cons a as ih =>
      obtain ⟨ha, has⟩ := not_or.mp (mt List.mem_cons.mpr has)
      exact ih (running_act hrunning (Ne.symm ha)) (isParked_act hrunning hphase (Ne.symm ha)) has

/-! ## Stops -/

/-- A call that stops the monitor: it begins after `before`, and returns in `m` after `during`. In
both lists there may be other such calls. -/
structure StopReturns (settings : PipelineSettings T) (before during : List (MonitorAction T))
    (m : Monitor T) : Prop where
  reached : ((actAll settings new before).act settings .requestStop).actAll settings during = m
  done : m.stopDone = true

/-- When a stop returns that neither a start nor a shutdown has come across, the loop waits. It
goes on waiting, or ends, until the next start: no poll is under way, and none begins. -/
theorem parked_after_stop {before during : List (MonitorAction T)}
    (hstop : StopReturns settings before during m) (hstart : .start ∉ during)
    (hup : m.shutdown = false) :
    ∀ after, .start ∉ after →
      (m.actAll settings after).phase = .waiting ∨ (m.actAll settings after).phase = .exited := by
  obtain ⟨hreached, hdone⟩ := hstop
  have hparked : m.parked = m.phase.isParked := by
    have hbefore : (actAll settings new before).parked =
        (actAll settings new before).phase.isParked := parked_actAll rfl before
    rw [← hreached]
    exact parked_actAll (parked_act hbefore _) during
  have hrunning : m.running = false := hreached ▸ running_actAll rfl hstart
  have hphase : m.phase.isParked = true := by
    rw [← hparked]
    simpa [stopDone, hup] using hdone
  intro after hafter
  exact MonitorPhase.isParked_eq_true_iff.mp (isParked_actAll hrunning hphase hafter)

def idleView : MonitorView ExactTime where
  buffered := []
  decoded := []
  time := 0
  duration := none
  state := .paused

/-- The loop is started and stopped before it has seen the start, and started again. -/
def startedTwice : List (MonitorAction ExactTime) :=
  [.step idleView, .start, .requestStop, .start, .step idleView, .step idleView]

/-- The poll goes on to its end, another thread stops the monitor as well, and the loop looks again
after its sleep. -/
def endOfPoll : List (MonitorAction ExactTime) :=
  List.replicate 3 (.step idleView) ++ [.requestStop] ++ List.replicate 3 (.step idleView) ++
    [.wake, .step idleView]

theorem parked_after_stop_endOfPoll :
    let m := ((actAll .default new startedTwice).act .default .requestStop).actAll .default
      endOfPoll
    (actAll .default new startedTwice).phase = .readingDecoded [] ∧
      StopReturns .default startedTwice endOfPoll m ∧ .start ∉ endOfPoll ∧
      m.shutdown = false ∧
      ∀ after, .start ∉ after →
        (m.actAll .default after).phase = .waiting ∨
          (m.actAll .default after).phase = .exited := by
  intro m
  have hstop : StopReturns .default startedTwice endOfPoll m := ⟨rfl, by decide +kernel⟩
  have hstart : .start ∉ endOfPoll := by simp [endOfPoll]
  have hup : m.shutdown = false := by decide +kernel
  exact ⟨by decide +kernel, hstop, hstart, hup, parked_after_stop hstop hstart hup⟩

end Monitor

end MediaPipeline
