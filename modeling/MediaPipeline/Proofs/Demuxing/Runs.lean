import Mathlib.Tactic.Common
import MediaPipeline.Proofs.FrameBuffer.Edits
import MediaPipeline.Worker.Demux

/-!
# Runs of a demux worker

A worker, its output, and everything that can happen to them, in any order. The worker makes one
step at a time; the calls of other threads come between any two steps.
-/

namespace MediaPipeline

structure DemuxSystem (X A T : Type) where
  worker : DemuxWorker X A T
  output : EncodedBuffer T

inductive DemuxAction (X A T : Type) where
  /-- The loop makes a step; this is the media time at that moment. -/
  | step (time : T)
  | wake
  | append (a : Append A T)
  | setDemuxer (demuxer : Option X)
  | reset
  | requestStop
  | cancelQueue
  | editOutput (edit : BufferEdit (EncodedFrame T) T)

namespace DemuxSystem

variable {X A T : Type} [MediaTime T] [Demuxer X T]

def act (settings : PipelineSettings T) (x : DemuxSystem X A T) :
    DemuxAction X A T → DemuxSystem X A T × List (DemuxEvent A)
  | .step time =>
    let (worker, output, events) := x.worker.step settings time x.output
    (⟨worker, output⟩, events)
  | .wake => ({ x with worker := x.worker.wake }, [])
  | .append a =>
    let (worker, events) := x.worker.append a
    ({ x with worker }, events)
  | .setDemuxer demuxer => ({ x with worker := x.worker.setDemuxer demuxer }, [])
  | .reset =>
    let (worker, events) := x.worker.reset
    ({ x with worker }, events)
  | .requestStop => ({ x with worker := x.worker.requestStop }, [])
  | .cancelQueue =>
    let (worker, events) := x.worker.cancelQueue
    ({ x with worker }, events)
  | .editOutput edit => ({ x with output := x.output.edit edit }, [])

def actAll (settings : PipelineSettings T) (x : DemuxSystem X A T)
    (as : List (DemuxAction X A T)) : DemuxSystem X A T :=
  as.foldl (fun x a => (x.act settings a).1) x

end DemuxSystem

namespace DemuxWorker

variable {X A T : Type} [MediaTime T] [Demuxer X T]

/-! ## What one step can do -/

/-- Every step of the loop, with what the loop found. -/
inductive Steps (settings : PipelineSettings T) (time : T) (w : DemuxWorker X A T)
    (output : EncodedBuffer T) :
    DemuxWorker X A T × EncodedBuffer T × List (DemuxEvent A) → Prop
  | exit (hphase : w.phase = .checking) (hstop : w.shutdown = true) :
    Steps settings time w output ({ w with phase := .exited }, output, [])
  | check (hphase : w.phase = .checking) (hstop : w.shutdown = false) :
    Steps settings time w output ({ w with phase := .timing }, output, [])
  | readTime (hphase : w.phase = .timing) :
    Steps settings time w output ({ w with phase := .measuring time }, output, [])
  | measure {t : T} (hphase : w.phase = .measuring t) :
    Steps settings time w output
      ({ w with phase := .locking (TimeRange.bufferedAhead output.ranges t) }, output, [])
  | quit {ahead : T} (hphase : w.phase = .locking ahead) (hstop : w.shutdown = true) :
    Steps settings time w output ({ w with phase := .exited }, output, [])
  | park {ahead : T} (hphase : w.phase = .locking ahead) (hstop : w.shutdown = false)
      (hqueue : w.queue = []) :
    Steps settings time w output ({ w with signalled := false, phase := .parked }, output, [])
  | throttle {ahead : T} (hphase : w.phase = .locking ahead) (hstop : w.shutdown = false)
      (hqueue : w.queue ≠ []) (hahead : settings.demuxBufferAhead < ahead) :
    Steps settings time w output
      ({ w with phase := .sleeping settings.noDataBackoff }, output, [])
  | refuse {ahead : T} {a : Append A T} {queue : List (Append A T)}
      (hphase : w.phase = .locking ahead) (hstop : w.shutdown = false)
      (hqueue : w.queue = a :: queue) (hahead : ¬ settings.demuxBufferAhead < ahead)
      (hdemuxer : w.demuxer = none) :
    Steps settings time w output
      ({ w with queue, phase := .reporting [(a.ticket, false)] none }, output, [])
  | demux {ahead : T} {a : Append A T} {queue : List (Append A T)} {x x' : X}
      {frames : List (EncodedFrame T)} (hphase : w.phase = .locking ahead)
      (hstop : w.shutdown = false) (hqueue : w.queue = a :: queue)
      (hahead : ¬ settings.demuxBufferAhead < ahead) (hdemuxer : w.demuxer = some x)
      (hdemux : Demuxer.demux x a.offset a.data = (.ok frames, x')) :
    Steps settings time w output
      ({ w with
          demuxer := some x'
          queue
          needKeyFrame := (a.window.select w.needKeyFrame frames).2
          phase := .reporting [(a.ticket, true)] none },
        output.addAll (a.window.select w.needKeyFrame frames).1, [])
  | breakOff {ahead : T} {a : Append A T} {queue : List (Append A T)} {x x' : X}
      {e : MediaError} (hphase : w.phase = .locking ahead) (hstop : w.shutdown = false)
      (hqueue : w.queue = a :: queue) (hahead : ¬ settings.demuxBufferAhead < ahead)
      (hdemuxer : w.demuxer = some x)
      (hdemux : Demuxer.demux x a.offset a.data = (.error e, x')) :
    Steps settings time w output
      ({ w with
          demuxer := some x'
          queue := []
          phase := .reporting ((a.ticket, false) :: queue.map fun b => (b.ticket, false))
            (some e) },
        output, [])
  | unpark (hphase : w.phase = .parked) (hsignal : w.signalled = true) :
    Steps settings time w output ({ w with phase := .checking }, output, [])
  | report {ticket : A} {success : Bool} {outcomes : List (A × Bool)} {error : Option MediaError}
      (hphase : w.phase = .reporting ((ticket, success) :: outcomes) error) :
    Steps settings time w output
      ({ w with phase := .reporting outcomes error }, output, [.done ticket success])
  | fail {e : MediaError} (hphase : w.phase = .reporting [] (some e)) :
    Steps settings time w output ({ w with phase := .exited }, output, [.failed e])
  | again (hphase : w.phase = .reporting [] none) :
    Steps settings time w output ({ w with phase := .checking }, output, [])
  | rest (hrest : w.rest ≠ .running) : Steps settings time w output (w, output, [])

theorem steps_step (settings : PipelineSettings T) (time : T) (w : DemuxWorker X A T)
    (output : EncodedBuffer T) :
    Steps settings time w output (w.step settings time output) := by
  unfold step
  cases hphase : w.phase with
  | checking =>
      dsimp only
      split_ifs with hstop
      · exact .exit hphase hstop
      · exact .check hphase (by simpa using hstop)
  | timing => exact .readTime hphase
  | measuring t => exact .measure hphase
  | locking ahead =>
      dsimp only
      unfold underLock
      by_cases hstop : w.shutdown = true
      · rw [if_pos hstop]
        exact .quit hphase hstop
      · rw [if_neg hstop]
        rw [Bool.not_eq_true] at hstop
        split
        · next hqueue => exact .park hphase hstop hqueue
        · next a queue hqueue =>
          by_cases hahead : settings.demuxBufferAhead < ahead
          · rw [if_pos hahead]
            exact .throttle hphase hstop (by simp [hqueue]) hahead
          · rw [if_neg hahead]
            unfold process
            split
            · next hdemuxer => exact .refuse hphase hstop hqueue hahead hdemuxer
            · next x hdemuxer =>
              split
              · next frames x' hdemux =>
                exact .demux hphase hstop hqueue hahead hdemuxer hdemux
              · next e x' hdemux =>
                exact .breakOff hphase hstop hqueue hahead hdemuxer hdemux
  | parked =>
      dsimp only
      split_ifs with hsignal
      · exact .unpark hphase hsignal
      · exact .rest (by simp [DemuxWorker.rest, hphase, hsignal])
  | reporting outcomes error =>
      match outcomes, error with
      | (ticket, success) :: outcomes, error => exact .report hphase
      | [], some e => exact .fail hphase
      | [], none => exact .again hphase
  | sleeping nanos => exact .rest (by simp [DemuxWorker.rest, hphase])
  | exited => exact .rest (by simp [DemuxWorker.rest, hphase])

end DemuxWorker

end MediaPipeline
