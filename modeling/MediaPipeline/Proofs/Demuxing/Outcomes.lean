import Mathlib.Data.List.Nodup
import Mathlib.Data.List.Perm.Basic
import MediaPipeline.Proofs.Demuxing.KeyFrames

/-!
# Outcomes of segments

Whoever hands a segment to a demux worker is told once what became of it. A segment waits in the
queue until the loop takes it, and after that its outcome waits with whoever found it: with the
loop, with a call that has drained the queue, or with a task runner. No step loses a segment on the
way or counts one twice, and when a stop has returned none is left on the way.
-/

namespace MediaPipeline

def DemuxEvent.outcome? {A : Type} : DemuxEvent A → Option (A × Bool)
  | .done ticket success => some (ticket, success)
  | .failed _ => none

/-! ## One worker -/

namespace DemuxWorker

variable {X A T : Type}

/-- What the loop has still to report before it goes on. -/
def unreported (w : DemuxWorker X A T) : List (A × Bool) :=
  match w.phase with
  | .reporting outcomes _ => outcomes
  | _ => []

def unanswered (w : DemuxWorker X A T) : List A :=
  w.unreported.map Prod.fst ++ w.queue.map Append.ticket

def succeeded (outcomes : List (A × Bool)) : List A := (outcomes.filter Prod.snd).map Prod.fst

@[simp] theorem succeeded_append (os os' : List (A × Bool)) :
    succeeded (os ++ os') = succeeded os ++ succeeded os' := by
  simp [succeeded]

theorem mem_succeeded_iff {os : List (A × Bool)} {ticket : A} :
    ticket ∈ succeeded os ↔ (ticket, true) ∈ os := by
  simp [succeeded]

theorem succeeded_map_false {α : Type} (f : α → A) (xs : List α) :
    succeeded (xs.map fun x => (f x, false)) = [] := by
  simp [succeeded, List.filter_map, Function.comp_def]

variable [MediaTime T] [Demuxer X T] {settings : PipelineSettings T} {time : T}
  {w : DemuxWorker X A T} {output : EncodedBuffer T}

/-- The segment that the next step demuxes, and the frames of it that are added. -/
def intake? (settings : PipelineSettings T) (w : DemuxWorker X A T) :
    Option (Append A T × List (EncodedFrame T)) :=
  match w.phase with
  | .locking ahead =>
    if w.shutdown || decide (settings.demuxBufferAhead < ahead) then none
    else
      match w.queue, w.demuxer with
      | a :: _, some x =>
        match (Demuxer.demux x a.offset a.data).1 with
        | .ok frames => some (a, (a.window.select w.needKeyFrame frames).1)
        | .error _ => none
      | _, _ => none
  | _ => none

theorem intake?_of_rest (hrest : w.rest ≠ .running) : w.intake? settings = none := by
  unfold DemuxWorker.rest at hrest
  cases hphase : w.phase <;> simp_all [intake?]

theorem intake?_of_demux {ahead : T} {a : Append A T} {queue : List (Append A T)} {x x' : X}
    {frames : List (EncodedFrame T)} (hphase : w.phase = .locking ahead)
    (hstop : w.shutdown = false) (hqueue : w.queue = a :: queue)
    (hahead : ¬ settings.demuxBufferAhead < ahead) (hdemuxer : w.demuxer = some x)
    (hdemux : Demuxer.demux x a.offset a.data = (.ok frames, x')) :
    w.intake? settings = some (a, (a.window.select w.needKeyFrame frames).1) := by
  simp [intake?, hphase, hstop, hqueue, hahead, hdemuxer, hdemux]

theorem exists_frames_of_intake? {a : Append A T} {kept : List (EncodedFrame T)}
    (hintake : w.intake? settings = some (a, kept)) :
    a ∈ w.queue ∧ ∃ x frames, w.demuxer = some x ∧
      (Demuxer.demux x a.offset a.data).1 = .ok frames ∧
        kept = (a.window.select w.needKeyFrame frames).1 := by
  unfold intake? at hintake
  split at hintake
  · split_ifs at hintake
    split at hintake
    · next b queue x hqueue hdemuxer =>
      split at hintake
      · next frames hframes =>
        obtain ⟨rfl, rfl⟩ := Prod.mk.inj (Option.some.inj hintake)
        exact ⟨hqueue ▸ List.mem_cons_self, x, frames, hdemuxer, hframes, rfl⟩
      · cases hintake
    · cases hintake
  · cases hintake

/-- Every step keeps account of the tickets: what was open is still open, or has been reported. -/
theorem unanswered_step (settings : PipelineSettings T) (time : T) (w : DemuxWorker X A T)
    (output : EncodedBuffer T) :
    ((w.step settings time output).2.2.filterMap DemuxEvent.outcome?).map Prod.fst ++
      (w.step settings time output).1.unanswered = w.unanswered := by
  have hstep := steps_step settings time w output
  generalize w.step settings time output = r at hstep ⊢
  cases hstep with
  | report hphase | fail hphase | again hphase =>
      simp [unanswered, unreported, DemuxEvent.outcome?, hphase]
  | rest hrest => rfl
  | _ => simp [unanswered, unreported, Function.comp_def, *]

/-- A success is about to be reported exactly if a segment has been demuxed. -/
theorem succeeded_step :
    succeeded ((w.step settings time output).2.2.filterMap DemuxEvent.outcome?) ++
        succeeded (w.step settings time output).1.unreported =
      succeeded w.unreported ++ ((w.intake? settings).map (·.1.ticket)).toList := by
  have hstep := steps_step settings time w output
  generalize w.step settings time output = r at hstep ⊢
  cases hstep with
  | @report ticket success outcomes error hphase =>
      cases success <;> simp [succeeded, unreported, DemuxEvent.outcome?, intake?, hphase]
  | fail hphase | again hphase =>
      simp [succeeded, unreported, DemuxEvent.outcome?, intake?, hphase]
  | demux hphase hstop hqueue hahead hdemuxer hdemux =>
      rw [intake?_of_demux hphase hstop hqueue hahead hdemuxer hdemux]
      simp [succeeded, unreported, hphase]
  | @breakOff ahead a queue x x' e hphase hstop hqueue hahead hdemuxer hdemux =>
      have hfailed := succeeded_map_false Append.ticket (a :: queue)
      simpa [intake?, unreported, hphase, hstop, hqueue, hahead, hdemuxer, hdemux] using hfailed
  | rest hrest => simp [intake?_of_rest hrest, succeeded]
  | _ => simp [succeeded, unreported, intake?, *]

/-- What the loop adds to the output comes from the segment that it demuxes. -/
theorem output_step :
    (w.step settings time output).2.1 =
      output.editAll (((w.intake? settings).toList.flatMap Prod.snd).map .add) := by
  have hstep := steps_step settings time w output
  generalize w.step settings time output = r at hstep ⊢
  cases hstep with
  | demux hphase hstop hqueue hahead hdemuxer hdemux =>
      rw [intake?_of_demux hphase hstop hqueue hahead hdemuxer hdemux]
      simp [FrameBuffer.editAll_map_add]
  | rest hrest => simp [intake?_of_rest hrest]
  | _ => simp [intake?, *]

theorem queue_step : (w.step settings time output).1.queue ⊆ w.queue := by
  have hstep := steps_step settings time w output
  generalize w.step settings time output = r at hstep ⊢
  cases hstep with
  | refuse _ _ hqueue _ _ | demux _ _ hqueue _ _ _ =>
      rw [hqueue]
      exact List.subset_cons_self _ _
  | breakOff _ _ _ _ _ _ => exact List.nil_subset _
  | _ => exact List.Subset.refl _

/-! ## Coming to an end -/

structure IsStopping (w : DemuxWorker X A T) : Prop where
  shutdown : w.shutdown = true
  signalled : w.signalled = true

/-- How many steps a stopping loop makes at most. -/
def stepsLeft (w : DemuxWorker X A T) : Nat :=
  match w.phase with
  | .exited => 0
  | .checking | .locking _ => 1
  | .measuring _ | .parked | .sleeping _ => 2
  | .timing => 3
  | .reporting outcomes _ => outcomes.length + 2

omit [MediaTime T] [Demuxer X T] in
theorem stepsLeft_eq_zero_iff : w.stepsLeft = 0 ↔ w.phase = .exited := by
  cases hphase : w.phase <;> simp [stepsLeft, hphase]

omit [MediaTime T] [Demuxer X T] in
theorem IsStopping.wake (hw : w.IsStopping) : w.wake.IsStopping := by
  unfold DemuxWorker.wake
  split
  · exact ⟨hw.shutdown, hw.signalled⟩
  · exact hw

theorem IsStopping.step (hw : w.IsStopping) : (w.step settings time output).1.IsStopping := by
  obtain ⟨hstop, hsignal⟩ := hw
  have hstep := steps_step settings time w output
  generalize w.step settings time output = r at hstep ⊢
  cases hstep with
  | park _ hrun _ => exact absurd (hrun.symm.trans hstop) (by decide)
  | _ => exact ⟨hstop, hsignal⟩

/-- Woken from a sleep, a stopping loop gets closer to its end with every step. -/
theorem IsStopping.stepsLeft_step (hw : w.IsStopping) (settings : PipelineSettings T) (time : T)
    (output : EncodedBuffer T) :
    (w.wake.step settings time output).1.stepsLeft ≤ w.stepsLeft - 1 := by
  obtain ⟨hstop, hsignal⟩ := hw.wake
  have hleft : w.wake.stepsLeft ≤ w.stepsLeft := by
    unfold DemuxWorker.wake
    split <;> simp [stepsLeft, *]
  have hawake : ∀ nanos, w.wake.phase ≠ .sleeping nanos := by
    intro nanos
    unfold DemuxWorker.wake
    split
    · simp
    · next hphase => exact hphase nanos
  generalize w.wake = v at *
  have hstep := steps_step settings time v output
  generalize v.step settings time output = r at hstep ⊢
  have hlocked : v.shutdown ≠ false := by simp [hstop]
  cases hstep with
  | exit hphase _ | readTime hphase | measure hphase | quit hphase _ | unpark hphase _
  | report hphase | fail hphase | again hphase =>
      simp only [stepsLeft, hphase, List.length_cons] at hleft ⊢
      omega
  | rest hrest =>
      have hexited : v.phase = .exited := by
        cases hphase : v.phase with
        | exited => rfl
        | sleeping nanos => exact absurd hphase (hawake nanos)
        | parked => simp [DemuxWorker.rest, hphase, hsignal] at hrest
        | _ => simp [DemuxWorker.rest, hphase] at hrest
      simp [stepsLeft, hexited]
  | _ => contradiction

end DemuxWorker

/-! ## One action -/

namespace DemuxAction

variable {X A T : Type}

def segment? : DemuxAction X A T → Option (Append A T)
  | .append a => some a
  | _ => none

def isStep : DemuxAction X A T → Bool
  | .step _ => true
  | _ => false

end DemuxAction

namespace DemuxSystem

open DemuxWorker

variable {X A T : Type} [MediaTime T] [Demuxer X T] {settings : PipelineSettings T}
  {x : DemuxSystem X A T} {a : DemuxAction X A T}

def intake? (settings : PipelineSettings T) (x : DemuxSystem X A T) :
    DemuxAction X A T → Option (Append A T × List (EncodedFrame T))
  | .step _ => x.worker.intake? settings
  | _ => none

theorem unanswered_act :
    ((((x.act settings a).2.filterMap DemuxEvent.outcome?).map Prod.fst) ++
        (x.act settings a).1.worker.unanswered).Perm
      (x.worker.unanswered ++ (a.segment?.map Append.ticket).toList) := by
  cases a with
  | step time =>
      have hstep := unanswered_step settings time x.worker x.output
      simpa [act, DemuxAction.segment?] using List.Perm.of_eq hstep
  | wake =>
      simp only [act, DemuxWorker.wake]
      split
      · next hphase => simp [unanswered, unreported, hphase, DemuxAction.segment?]
      · simp [DemuxAction.segment?]
  | append b =>
      simp only [act, DemuxWorker.append]
      split
      · simpa [DemuxEvent.outcome?, DemuxAction.segment?] using
          (List.perm_append_singleton b.ticket x.worker.unanswered).symm
      · simp [unanswered, unreported, DemuxAction.segment?]
  | reset | cancelQueue =>
      have hdrained : (x.worker.queue.map fun b => DemuxEvent.done b.ticket false).filterMap
          DemuxEvent.outcome? = x.worker.queue.map fun b => (b.ticket, false) := by
        simp [List.filterMap_map, Function.comp_def, DemuxEvent.outcome?]
      simp only [act, DemuxWorker.reset, DemuxWorker.cancelQueue, hdrained]
      simpa [unanswered, unreported, Function.comp_def, DemuxAction.segment?] using
        List.perm_append_comm
  | _ => simp [act, setDemuxer, requestStop, unanswered, unreported, DemuxAction.segment?]

theorem succeeded_act :
    succeeded ((x.act settings a).2.filterMap DemuxEvent.outcome?) ++
        succeeded (x.act settings a).1.worker.unreported =
      succeeded x.worker.unreported ++ ((x.intake? settings a).map (·.1.ticket)).toList := by
  cases a with
  | step time => exact succeeded_step
  | wake =>
      simp only [act, DemuxWorker.wake]
      split
      · next hphase => simp [succeeded, unreported, hphase, intake?]
      · simp [succeeded, intake?]
  | append b =>
      simp only [act, DemuxWorker.append]
      split <;> simp [succeeded, unreported, DemuxEvent.outcome?, intake?]
  | reset | cancelQueue =>
      simp [act, DemuxWorker.reset, DemuxWorker.cancelQueue, List.filterMap_map,
        Function.comp_def, DemuxEvent.outcome?, succeeded_map_false, unreported, intake?]
  | _ => simp [act, setDemuxer, requestStop, succeeded, unreported, intake?]

theorem output_act :
    (x.act settings a).1.output =
      x.output.editAll (a.edits ++ ((x.intake? settings a).toList.flatMap Prod.snd).map .add) := by
  cases a with
  | step time => exact output_step
  | _ => rfl

theorem queue_act {b : Append A T} (hb : b ∈ (x.act settings a).1.worker.queue) :
    b ∈ x.worker.queue ∨ a.segment? = some b := by
  cases a with
  | step time => exact Or.inl (queue_step hb)
  | wake =>
      simp only [act, DemuxWorker.wake] at hb
      split at hb <;> exact Or.inl hb
  | append c =>
      simp only [act, DemuxWorker.append] at hb
      split at hb
      · exact Or.inl hb
      · rcases List.mem_append.mp hb with hb | hb
        · exact Or.inl hb
        · exact Or.inr (congrArg some (List.mem_singleton.mp hb).symm)
  | reset | cancelQueue => simp [act, DemuxWorker.reset, DemuxWorker.cancelQueue] at hb
  | _ => exact Or.inl hb

end DemuxSystem

/-! ## From the outcome to the callback -/

/-- A worker together with the calls of other threads that are under way and with the task runner,
if there is one. -/
structure DemuxService (X A T : Type) where
  system : DemuxSystem X A T
  /-- What calls have found under the lock and, out of it, have still to report. -/
  owed : List (A × Bool)
  tasks : List (A × Bool)
  answered : List (A × Bool)
  /-- The segments that were demuxed, with the frames of each that were added. -/
  demuxed : List (Append A T × List (EncodedFrame T))

inductive ServiceAction (X A T : Type) where
  | act (a : DemuxAction X A T)
  /-- A call raises its signal, out of the lock and perhaps late. -/
  | signal
  /-- Some call reports the outcome at this place. -/
  | report (i : Nat)
  /-- The task runner runs the task at this place. -/
  | runTask (i : Nat)

namespace ServiceAction

variable {X A T : Type}

def segment? : ServiceAction X A T → Option (Append A T)
  | .act a => a.segment?
  | _ => none

def edits : ServiceAction X A T → List (BufferEdit (EncodedFrame T) T)
  | .act a => a.edits
  | _ => []

def OnlyReports : ServiceAction X A T → Prop
  | .report _ | .runTask _ => True
  | _ => False

def segments (as : List (ServiceAction X A T)) : List (Append A T) := as.filterMap segment?

theorem segments_concat (as : List (ServiceAction X A T)) (c : ServiceAction X A T) :
    segments (as ++ [c]) = segments as ++ c.segment?.toList := by
  cases hc : c.segment? <;> simp [segments, hc]

/-- A stop: the request, what happens until the loop has ended, the draining of the queue, and what
happens until it is reported. -/
def stop (joining closing : List (ServiceAction X A T)) : List (ServiceAction X A T) :=
  .act .requestStop :: joining ++ .act .cancelQueue :: closing

/-- The loop makes a step at each of these times, woken if it sleeps. -/
def rounds (times : List T) : List (ServiceAction X A T) :=
  times.flatMap fun time => [.act .wake, .act (.step time)]

end ServiceAction

namespace DemuxService

open DemuxWorker ServiceAction
open scoped List

variable {X A T : Type}

def complete (runner : Bool) (x : DemuxService X A T) (outcomes : List (A × Bool)) :
    DemuxService X A T :=
  if runner then { x with tasks := x.tasks ++ outcomes }
  else { x with answered := x.answered ++ outcomes }

variable [MediaTime T] [Demuxer X T]

def new (output : EncodedBuffer T) : DemuxService X A T where
  system := ⟨.new, output⟩
  owed := []
  tasks := []
  answered := []
  demuxed := []

def intake? (settings : PipelineSettings T) (x : DemuxService X A T) :
    ServiceAction X A T → Option (Append A T × List (EncodedFrame T))
  | .act a => x.system.intake? settings a
  | _ => none

/-- The loop reports by itself, one outcome a step; a call reports once it is out of the lock. -/
def act (settings : PipelineSettings T) (runner : Bool) (x : DemuxService X A T) :
    ServiceAction X A T → DemuxService X A T
  | .act a =>
    let (system, events) := x.system.act settings a
    let outcomes := events.filterMap DemuxEvent.outcome?
    let x' := { x with system, demuxed := x.demuxed ++ (x.system.intake? settings a).toList }
    if a.isStep then x'.complete runner outcomes else { x' with owed := x'.owed ++ outcomes }
  | .signal =>
    { x with system := { x.system with worker := { x.system.worker with signalled := true } } }
  | .report i => complete runner { x with owed := x.owed.eraseIdx i } x.owed[i]?.toList
  | .runTask i =>
    { x with tasks := x.tasks.eraseIdx i, answered := x.answered ++ x.tasks[i]?.toList }

def actAll (settings : PipelineSettings T) (runner : Bool) (x : DemuxService X A T)
    (as : List (ServiceAction X A T)) : DemuxService X A T :=
  as.foldl (act settings runner) x

/-- The outcomes that have left the loop, wherever they are by now. -/
def collected (x : DemuxService X A T) : List (A × Bool) := x.answered ++ x.tasks ++ x.owed

def outcomes (settings : PipelineSettings T) (x : DemuxService X A T) :
    ServiceAction X A T → List (A × Bool)
  | .act a => (x.system.act settings a).2.filterMap DemuxEvent.outcome?
  | _ => []

/-- After the segments `given` have been handed to the worker: each is still open there or has an
outcome, and the successes are those that were demuxed. -/
structure AccountsFor (given : List (Append A T)) (x : DemuxService X A T) : Prop where
  tickets : (x.collected.map Prod.fst ++ x.system.worker.unanswered).Perm
    (given.map Append.ticket)
  successes : (succeeded x.collected ++ succeeded x.system.worker.unreported).Perm
    (x.demuxed.map (·.1.ticket))
  queue : x.system.worker.queue ⊆ given
  demuxed : x.demuxed.map Prod.fst ⊆ given

/-! ## Keeping account -/

section Complete

variable {runner : Bool} {x : DemuxService X A T}

omit [MediaTime T] [Demuxer X T]

@[simp] theorem complete_system (os : List (A × Bool)) :
    (x.complete runner os).system = x.system := by
  unfold complete
  split <;> rfl

@[simp] theorem complete_demuxed (os : List (A × Bool)) :
    (x.complete runner os).demuxed = x.demuxed := by
  unfold complete
  split <;> rfl

theorem collected_complete (os : List (A × Bool)) :
    (x.complete runner os).collected.Perm (x.collected ++ os) := by
  unfold complete collected
  split
  · simp only [List.append_assoc]
    apply List.Perm.append_left
    apply List.Perm.append_left
    exact List.perm_append_comm
  · simp only [List.append_assoc]
    apply List.Perm.append_left
    rw [← List.append_assoc x.tasks]
    exact List.perm_append_comm

theorem toList_append_eraseIdx {α : Type} (xs : List α) (i : Nat) :
    (xs[i]?.toList ++ xs.eraseIdx i).Perm xs := by
  by_cases hi : i < xs.length
  · simpa [hi] using List.getElem_cons_eraseIdx_perm hi
  · simp [List.eraseIdx_of_length_le, Nat.le_of_not_lt hi]

end Complete

variable {settings : PipelineSettings T} {runner : Bool} {x : DemuxService X A T}
  {given : List (Append A T)} {c : ServiceAction X A T}

theorem collected_act :
    (x.act settings runner c).collected.Perm (x.collected ++ x.outcomes settings c) := by
  cases c with
  | act a =>
      simp only [act, outcomes]
      split
      · exact collected_complete _
      · simp [collected]
  | signal => simp [act, outcomes, collected]
  | report i =>
      simp only [act, outcomes, List.append_nil]
      apply (collected_complete _).trans
      simp only [collected, List.append_assoc]
      apply List.Perm.append_left
      apply List.Perm.append_left
      exact List.perm_append_comm.trans (toList_append_eraseIdx x.owed i)
  | runTask i =>
      simp only [act, outcomes, collected, List.append_nil, List.append_assoc]
      apply List.Perm.append_left
      rw [← List.append_assoc]
      exact (toList_append_eraseIdx x.tasks i).append_right x.owed

theorem system_act_act (a : DemuxAction X A T) :
    (x.act settings runner (.act a)).system = (x.system.act settings a).1 := by
  simp only [act]
  split <;> simp

theorem demuxed_act :
    (x.act settings runner c).demuxed = x.demuxed ++ (x.intake? settings c).toList := by
  cases c with
  | act a =>
      simp only [act, intake?]
      split <;> simp
  | _ => simp [act, intake?]

/-- Out of the lock nothing happens to the worker but that a signal is raised. -/
theorem worker_act_of_outside (settings : PipelineSettings T) (runner : Bool)
    (x : DemuxService X A T) (hc : ∀ a, c ≠ .act a) :
    (x.act settings runner c).system.worker.phase = x.system.worker.phase ∧
      (x.act settings runner c).system.worker.queue = x.system.worker.queue ∧
      (x.act settings runner c).system.output = x.system.output ∧
      x.outcomes settings c = [] ∧ x.intake? settings c = none ∧ c.segment? = none := by
  cases c with
  | act a => exact absurd rfl (hc a)
  | signal => exact ⟨rfl, rfl, rfl, rfl, rfl, rfl⟩
  | _ => simp [act, outcomes, intake?, segment?]

theorem unanswered_act :
    ((x.outcomes settings c).map Prod.fst ++
        (x.act settings runner c).system.worker.unanswered).Perm
      (x.system.worker.unanswered ++ (c.segment?.map Append.ticket).toList) := by
  by_cases hc : ∃ a, c = .act a
  · obtain ⟨a, rfl⟩ := hc
    rw [system_act_act]
    exact DemuxSystem.unanswered_act
  · push Not at hc
    obtain ⟨hphase, hqueue, -, hnone, -, hsegment⟩ :=
      worker_act_of_outside settings runner x hc
    simp [unanswered, unreported, hphase, hqueue, hnone, hsegment]

theorem succeeded_act :
    succeeded (x.outcomes settings c) ++
        succeeded (x.act settings runner c).system.worker.unreported =
      succeeded x.system.worker.unreported ++
        ((x.intake? settings c).map (·.1.ticket)).toList := by
  by_cases hc : ∃ a, c = .act a
  · obtain ⟨a, rfl⟩ := hc
    rw [system_act_act]
    exact DemuxSystem.succeeded_act
  · push Not at hc
    obtain ⟨hphase, -, -, hnone, hintake, -⟩ :=
      worker_act_of_outside settings runner x hc
    simp [unreported, hphase, hnone, hintake, succeeded]

theorem queue_act {b : Append A T} (hb : b ∈ (x.act settings runner c).system.worker.queue) :
    b ∈ x.system.worker.queue ∨ c.segment? = some b := by
  by_cases hc : ∃ a, c = .act a
  · obtain ⟨a, rfl⟩ := hc
    rw [system_act_act] at hb
    exact DemuxSystem.queue_act hb
  · push Not at hc
    rw [(worker_act_of_outside settings runner x hc).2.1] at hb
    exact Or.inl hb

theorem exists_of_intake? {e : Append A T × List (EncodedFrame T)}
    (he : x.intake? settings c = some e) :
    e.1 ∈ x.system.worker.queue ∧ ∃ demuxer frames, x.system.worker.demuxer = some demuxer ∧
      (Demuxer.demux demuxer e.1.offset e.1.data).1 = .ok frames ∧
        e.2 = (e.1.window.select x.system.worker.needKeyFrame frames).1 := by
  cases c with
  | act a =>
      cases a with
      | step time => exact exists_frames_of_intake? he
      | _ => cases he
  | _ => cases he

theorem AccountsFor.act (hx : x.AccountsFor given) :
    (x.act settings runner c).AccountsFor (given ++ c.segment?.toList) where
  tickets := by
    calc
      _ ~ (x.collected ++ x.outcomes settings c).map Prod.fst ++
            (x.act settings runner c).system.worker.unanswered :=
        (collected_act.map Prod.fst).append_right _
      _ ~ x.collected.map Prod.fst ++
            (x.system.worker.unanswered ++ (c.segment?.map Append.ticket).toList) := by
        rw [List.map_append, List.append_assoc]
        exact unanswered_act.append_left _
      _ ~ (given ++ c.segment?.toList).map Append.ticket := by
        rw [← List.append_assoc, List.map_append, Option.toList_map]
        exact hx.tickets.append_right _
  successes := by
    calc
      _ ~ succeeded (x.collected ++ x.outcomes settings c) ++
            succeeded (x.act settings runner c).system.worker.unreported :=
        ((collected_act.filter Prod.snd).map Prod.fst).append_right _
      _ = succeeded x.collected ++ (succeeded x.system.worker.unreported ++
            ((x.intake? settings c).map (·.1.ticket)).toList) := by
        rw [succeeded_append, List.append_assoc, succeeded_act]
      _ ~ _ := by
        rw [← List.append_assoc, demuxed_act, List.map_append, Option.toList_map]
        exact hx.successes.append_right _
  queue := by
    intro b hb
    rcases queue_act hb with hb | hb
    · exact List.mem_append_left _ (hx.queue hb)
    · exact List.mem_append_right _ (by simp [hb])
  demuxed := by
    intro b hb
    rw [demuxed_act, List.map_append, List.mem_append] at hb
    rcases hb with hb | hb
    · exact List.mem_append_left _ (hx.demuxed hb)
    · obtain ⟨e, he, rfl⟩ := List.mem_map.mp hb
      have hintake : x.intake? settings c = some e := by simpa using he
      exact List.mem_append_left _ (hx.queue (exists_of_intake? hintake).1)

omit [MediaTime T] [Demuxer X T] in
theorem accountsFor_new (output : EncodedBuffer T) :
    (new output : DemuxService X A T).AccountsFor [] where
  tickets := List.Perm.refl _
  successes := List.Perm.refl _
  queue := List.nil_subset _
  demuxed := List.nil_subset _

theorem accountsFor_actAll (output : EncodedBuffer T) (as : List (ServiceAction X A T)) :
    ((new output).actAll settings runner as).AccountsFor (segments as) := by
  induction as using List.reverseRecOn with
  | nil => exact accountsFor_new output
  | append_singleton as c ih =>
      rw [actAll, List.foldl_concat, segments_concat]
      exact ih.act

theorem output_act :
    (x.act settings runner c).system.output = x.system.output.editAll
      (c.edits ++ ((x.intake? settings c).toList.flatMap Prod.snd).map .add) := by
  by_cases hc : ∃ a, c = .act a
  · obtain ⟨a, rfl⟩ := hc
    rw [system_act_act]
    exact DemuxSystem.output_act
  · push Not at hc
    obtain ⟨-, -, houtput, -, hintake, -⟩ :=
      worker_act_of_outside settings runner x hc
    rw [houtput, hintake]
    cases c with
    | act a => exact absurd rfl (hc a)
    | _ => rfl

/-! ## A stop -/

theorem stepsLeft_rounds (settings : PipelineSettings T) (runner : Bool)
    (hx : x.system.worker.IsStopping) (times : List T) :
    (x.actAll settings runner (rounds times)).system.worker.stepsLeft ≤
      x.system.worker.stepsLeft - times.length := by
  induction times generalizing x with
  | nil => exact Nat.le_refl _
  | cons time times ih =>
      have hround : ((x.act settings runner (.act .wake)).act settings runner
          (.act (.step time))).system.worker =
            (x.system.worker.wake.step settings time x.system.output).1 := by
        rw [system_act_act, system_act_act]
        rfl
      have hlater := ih (x := (x.act settings runner (.act .wake)).act settings runner
        (.act (.step time))) (hround ▸ hx.wake.step)
      rw [hround] at hlater
      have hstep := hx.stepsLeft_step settings time x.system.output
      calc
        _ ≤ _ := hlater
        _ ≤ x.system.worker.stepsLeft - (time :: times).length := by
          rw [List.length_cons]
          omega

theorem system_of_onlyReports {closing : List (ServiceAction X A T)}
    (hclosing : ∀ c ∈ closing, c.OnlyReports) :
    (x.actAll settings runner closing).system = x.system := by
  induction closing generalizing x with
  | nil => rfl
  | cons c cs ih =>
      obtain ⟨hc, hcs⟩ := List.forall_mem_cons.mp hclosing
      have hsystem : (x.act settings runner c).system = x.system := by
        cases c with
        | report i | runTask i => simp [act]
        | _ => exact hc.elim
      exact (ih hcs).trans hsystem

omit [MediaTime T] [Demuxer X T] in
theorem AccountsFor.answered (hx : x.AccountsFor given) (hexit : x.system.worker.phase = .exited)
    (hqueue : x.system.worker.queue = []) (howed : x.owed = []) (htasks : x.tasks = []) :
    (x.answered.map Prod.fst).Perm (given.map Append.ticket) ∧
      (succeeded x.answered).Perm (x.demuxed.map (·.1.ticket)) := by
  have hcollected : x.collected = x.answered := by simp [collected, howed, htasks]
  have hunreported : x.system.worker.unreported = [] := by simp [unreported, hexit]
  have htickets := hx.tickets
  have hsuccesses := hx.successes
  rw [hcollected, unanswered, hunreported, hqueue] at htickets
  rw [hcollected, hunreported] at hsuccesses
  exact ⟨by simpa using htickets, by simpa [succeeded] using hsuccesses⟩

omit [MediaTime T] [Demuxer X T] in
theorem AccountsFor.success_iff {a : Append A T} {success : Bool} (hx : x.AccountsFor given)
    (hdistinct : (given.map Append.ticket).Nodup) (ha : a ∈ given)
    (htickets : (x.answered.map Prod.fst).Perm (given.map Append.ticket))
    (hsuccesses : (succeeded x.answered).Perm (x.demuxed.map (·.1.ticket)))
    (hanswer : (a.ticket, success) ∈ x.answered) :
    success = true ↔ ∃ kept, (a, kept) ∈ x.demuxed := by
  have hanswers : (x.answered.map Prod.fst).Nodup := htickets.nodup_iff.mpr hdistinct
  constructor
  · rintro rfl
    have hticket : a.ticket ∈ x.demuxed.map (·.1.ticket) :=
      hsuccesses.subset (mem_succeeded_iff.mpr hanswer)
    obtain ⟨⟨b, kept⟩, hb, hba⟩ := List.mem_map.mp hticket
    have hgiven : b ∈ given := hx.demuxed (List.mem_map_of_mem hb)
    obtain rfl : b = a := List.inj_on_of_nodup_map hdistinct hgiven ha hba
    exact ⟨kept, hb⟩
  · rintro ⟨kept, hkept⟩
    have hticket : a.ticket ∈ x.demuxed.map (·.1.ticket) := List.mem_map.mpr ⟨_, hkept, rfl⟩
    have htrue : (a.ticket, true) ∈ x.answered :=
      mem_succeeded_iff.mp (hsuccesses.symm.subset hticket)
    exact (Prod.mk.inj (List.inj_on_of_nodup_map hanswers hanswer htrue rfl)).2

theorem actAll_concat (as : List (ServiceAction X A T)) :
    x.actAll settings runner (as ++ [c]) = (x.actAll settings runner as).act settings runner c :=
  List.foldl_concat ..

/-- In every run, with a task runner or without, and whatever the segments: when a stop has returned
and the task runner has run its tasks, every segment has been answered for exactly once. The answer
is a success exactly if the segment was demuxed, and what the loop adds to the output at any moment
are the frames, chosen by window and key frame, of the segment that it demuxes then. Once a stop has
been requested the loop ends. -/
theorem answered_once_by_stop (settings : PipelineSettings T) (runner : Bool)
    (output : EncodedBuffer T) (calls joining closing : List (ServiceAction X A T))
    (hdistinct : ((segments (calls ++ stop joining closing)).map Append.ticket).Nodup)
    (hexit : ((new output).actAll settings runner
      (calls ++ .act .requestStop :: joining)).system.worker.phase = .exited)
    (hclosing : ∀ c ∈ closing, c.OnlyReports)
    (howed : ((new output).actAll settings runner (calls ++ stop joining closing)).owed = [])
    (htasks : ((new output).actAll settings runner (calls ++ stop joining closing)).tasks = []) :
    let run := (new output : DemuxService X A T).actAll settings runner
    let all := calls ++ stop joining closing
    ((run all).answered.map Prod.fst).Perm ((segments all).map Append.ticket) ∧
    (∀ a ∈ segments all, ∀ success, (a.ticket, success) ∈ (run all).answered →
      (success = true ↔ ∃ kept, (a, kept) ∈ (run all).demuxed)) ∧
    (∀ past c, ∃ new,
        (run (past ++ [c])).demuxed = (run past).demuxed ++ new ∧
        (run (past ++ [c])).system.output = (run past).system.output.editAll
          (c.edits ++ (new.flatMap Prod.snd).map .add) ∧
        ∀ e ∈ new, ∃ demuxer frames, (run past).system.worker.demuxer = some demuxer ∧
          (Demuxer.demux demuxer e.1.offset e.1.data).1 = .ok frames ∧
          e.2 = (e.1.window.select (run past).system.worker.needKeyFrame frames).1) ∧
    ∀ times, (run calls).system.worker.stepsLeft ≤ times.length →
      (run (calls ++ .act .requestStop :: rounds times)).system.worker.phase = .exited := by
  intro run all
  have haccounts : (run all).AccountsFor (segments all) := accountsFor_actAll output all
  have hsplit : run all = (((run (calls ++ .act .requestStop :: joining)).act settings runner
      (.act .cancelQueue)).actAll settings runner closing) := by
    have hall : all =
        (calls ++ .act .requestStop :: joining ++ [.act .cancelQueue]) ++ closing := by
      simp [all, stop]
    rw [hall]
    simp only [run, actAll, List.foldl_append, List.foldl_cons, List.foldl_nil]
  have hsystem : (run all).system =
      ((run (calls ++ .act .requestStop :: joining)).system.act settings .cancelQueue).1 := by
    rw [hsplit, system_of_onlyReports hclosing, system_act_act]
  obtain ⟨htickets, hsuccesses⟩ := haccounts.answered
    (by rw [hsystem]; exact hexit) (by rw [hsystem]; rfl) howed htasks
  refine ⟨htickets, ?_, ?_, ?_⟩
  · intro a ha success hanswer
    exact haccounts.success_iff hdistinct ha htickets hsuccesses hanswer
  · intro past c
    refine ⟨((run past).intake? settings c).toList, ?_, ?_, ?_⟩
    · rw [show run (past ++ [c]) = _ from actAll_concat past, demuxed_act]
    · rw [show run (past ++ [c]) = _ from actAll_concat past, output_act]
    · intro e he
      exact (exists_of_intake? (by simpa using he)).2
  · intro times htimes
    have hrounds : run (calls ++ .act .requestStop :: rounds times) =
        ((run calls).act settings runner (.act .requestStop)).actAll settings runner
          (rounds times) := by
      simp only [run, actAll, List.foldl_append, List.foldl_cons]
    have hstopping : ((run calls).act settings runner
        (.act .requestStop)).system.worker.IsStopping := by
      rw [system_act_act]
      exact ⟨rfl, rfl⟩
    have hleft := stepsLeft_rounds settings runner hstopping times
    have hphase : ((run calls).act settings runner (.act .requestStop)).system.worker.stepsLeft =
        (run calls).system.worker.stepsLeft := by
      rw [system_act_act]
      rfl
    rw [hrounds]
    apply stepsLeft_eq_zero_iff.mp
    omega

def frameSegment (ticket : Nat) : Append Nat Float where
  data := Segment.ofFrames [⟨(0 : Float), 1, true, []⟩]
  offset := 0
  window := ⟨0, 10⟩
  ticket

def loop (n : Nat) : List (ServiceAction (SegmentDemuxer Float) Nat Float) :=
  List.replicate n (.act (.step 0))

/-- Handed over without a demuxer, demuxed, lost to a reset, to a missing demuxer and to a malformed
segment, and handed to a worker that has failed. -/
def mixedSegments : List (ServiceAction (SegmentDemuxer Float) Nat Float) :=
  List.flatten [
    [.act (.append (frameSegment 0)), .act (.setDemuxer (some ⟨.video 0 "h264" 1 1⟩)),
      .act (.append (frameSegment 1))],
    loop 6,
    [.act (.append (frameSegment 2)), .act .reset, .act (.append (frameSegment 3)),
      .act (.setDemuxer none)],
    loop 6,
    [.act (.setDemuxer (some ⟨.video 0 "h264" 1 1⟩)), .signal,
      .act (.append { frameSegment 4 with data := [1] }), .act (.append (frameSegment 5))],
    loop 7,
    [.act (.append (frameSegment 6))]]

def reports : List (ServiceAction (SegmentDemuxer Float) Nat Float) :=
  List.replicate 3 (.report 0) ++ List.replicate 7 (.runTask 0)

theorem answered_once_by_stop_mixedSegments :
    let run := (new (.empty .dts) :
      DemuxService (SegmentDemuxer Float) Nat Float).actAll .default true
    let all := mixedSegments ++ stop [] reports
    (((segments all).map Append.ticket).Nodup ∧
      (run (mixedSegments ++ [.act .requestStop])).system.worker.phase = .exited ∧
      (∀ c ∈ reports, c.OnlyReports) ∧ (run all).owed = [] ∧ (run all).tasks = []) ∧
    ((run all).answered.map Prod.fst).Perm ((segments all).map Append.ticket) ∧
    (∀ a ∈ segments all, ∀ success, (a.ticket, success) ∈ (run all).answered →
      (success = true ↔ ∃ kept, (a, kept) ∈ (run all).demuxed)) ∧
    (run all).answered =
      [(1, true), (3, false), (4, false), (5, false), (0, false), (2, false), (6, false)] := by
  intro run all
  have hclosing : ∀ c ∈ reports, c.OnlyReports := by
    simp [reports, OnlyReports]
  have hdistinct : ((segments all).map Append.ticket).Nodup := by decide +kernel
  have hexit : (run (mixedSegments ++ [.act .requestStop])).system.worker.phase = .exited := by
    decide +kernel
  have hreturned : (run all).owed = [] ∧ (run all).tasks = [] ∧ (run all).answered =
      [(1, true), (3, false), (4, false), (5, false), (0, false), (2, false), (6, false)] := by
    decide +kernel
  obtain ⟨howed, htasks, hanswered⟩ := hreturned
  obtain ⟨htickets, hsuccess, -, -⟩ := answered_once_by_stop .default true (.empty .dts)
    mixedSegments [] reports hdistinct hexit hclosing howed htasks
  exact ⟨⟨hdistinct, hexit, hclosing, howed, htasks⟩, htickets, hsuccess, hanswered⟩

end DemuxService

end MediaPipeline
