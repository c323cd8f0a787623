import MediaPipeline.Pipeline.Clients
import MediaPipeline.Proofs.Playback.Calls
import MediaPipeline.Proofs.Time.Exact

/-!
# What a pipeline makes known

A pipeline together with its clients and the wall clock, and everything that the owner and the
clients are told in a run. A call makes known that it seeks or has another rate, and then the new
state if that is not the old one. The error state is entered once at most, and nothing is made known
from then on.
-/

namespace MediaPipeline

/-! ## Runs -/

structure Broadcast (C T : Type) where
  pipeline : Pipeline T
  clients : Clients C
  now : Nat

inductive BroadcastAction (C T : Type) where
  | call (c : PipelineCall T)
  /-- The wall clock goes on or is set. -/
  | setClock (now : Nat)
  | addClient (client : C)
  | removeClient (id : Nat)

namespace Broadcast

variable {C T : Type} [MediaTime T]

def new (now : Nat) : Broadcast C T := ⟨.new now, .empty, now⟩

def time (x : Broadcast C T) : T := x.pipeline.currentTime x.now

/-- What an action leads to, and what it makes known. -/
def act (x : Broadcast C T) : BroadcastAction C T → Broadcast C T × List (Delivery C T)
  | .call c =>
    let (pipeline, notices) := x.pipeline.call x.now c
    ({ x with pipeline }, notices.flatMap (Notice.deliveries x.clients))
  | .setClock now => ({ x with now }, [])
  | .addClient client => ({ x with clients := (x.clients.add client).2 }, [])
  | .removeClient id => ({ x with clients := x.clients.remove id }, [])

def actAll (x : Broadcast C T) : List (BroadcastAction C T) → Broadcast C T × List (Delivery C T)
  | [] => (x, [])
  | a :: as =>
    let (y, deliveries) := x.act a
    let (z, rest) := y.actAll as
    (z, deliveries ++ rest)

end Broadcast

namespace Delivery

variable {C T : Type}

/-- The owner is told that the pipeline is in error. -/
def reportsError : Delivery C T → Bool
  | ownerState .errored => true
  | _ => false

end Delivery

/-! ## One call -/

namespace Notice

variable {C T : Type} (clients : Clients C)

def ofChange (old new : PlaybackState) : List (Notice T) :=
  if old = new then [] else [stateChanged old new]

@[simp] theorem ofChange_self (s : PlaybackState) : (ofChange s s : List (Notice T)) = [] :=
  if_pos rfl

/-- Clients are told of the error too, but only the owner is told by a state of its own. -/
theorem countP_reportsError_deliveries (n : Notice T) :
    (n.deliveries clients).countP Delivery.reportsError =
      n.toOwner.countP (Delivery.reportsError (C := C)) := by
  have hclients : (clients.toList.map (Delivery.client · n)).countP Delivery.reportsError = 0 := by
    simp [List.countP_map, Function.comp_def, Delivery.reportsError]
  rw [deliveries, List.countP_append, hclients, Nat.add_zero]

end Notice

namespace Pipeline

variable {C T : Type} {p q : Pipeline T}

/-- The notices of a call of `p`, with what it leads to. -/
inductive Announces (p : Pipeline T) : Pipeline T × List (Notice T) → Prop
  | state (q : Pipeline T) : Announces p (q, Notice.ofChange p.status q.status)
  | seek (q : Pipeline T) : Announces p (q, .seeking :: Notice.ofChange p.status q.status)
  | rate (q : Pipeline T) (hstatus : q.status = p.status) :
      Announces p (q, [.rateChanged p.rate q.rate])

theorem announces_nothing (hstatus : q.status = p.status) : p.Announces (q, []) := by
  have hq : p.Announces (q, Notice.ofChange p.status q.status) := .state q
  rwa [hstatus, Notice.ofChange_self] at hq

theorem announces_seeking (hstatus : q.status = p.status) : p.Announces (q, [.seeking]) := by
  have hq : p.Announces (q, .seeking :: Notice.ofChange p.status q.status) := .seek q
  rwa [hstatus, Notice.ofChange_self] at hq

theorem announces_enter {new : PlaybackState} (hstatus : q.status = p.status) :
    p.Announces (q.enter new) := by
  have hpair : q.enter new =
      ((q.enter new).1, Notice.ofChange p.status (q.enter new).1.status) := by
    rw [enter_status]
    simp only [enter, Notice.ofChange, hstatus]
    split_ifs <;> rfl
  exact hpair ▸ .state _

theorem announces_enterSeeking {new : PlaybackState} (hstatus : q.status = p.status) :
    p.Announces (q.enterSeeking new) := by
  have hpair : q.enterSeeking new = ((q.enterSeeking new).1,
      .seeking :: Notice.ofChange p.status (q.enterSeeking new).1.status) := by
    rw [enterSeeking_status]
    simp only [enterSeeking, enter, Notice.ofChange, hstatus]
    split_ifs <;> rfl
  exact hpair ▸ .seek _

variable [MediaTime T]

theorem announces_setDuration (p : Pipeline T) (now : Nat) (duration : Option T) :
    p.Announces (p.setDuration now duration) := by
  unfold setDuration
  split_ifs
  · exact announces_nothing rfl
  · cases duration with
    | none => exact announces_nothing rfl
    | some d =>
        by_cases hfits : p.currentTime now ≤ d
        · simp only [hfits, if_true]
          exact announces_nothing rfl
        · simp only [hfits, if_false]
          split
          · exact announces_enterSeeking rfl
          · exact announces_enterSeeking rfl
          · exact announces_enterSeeking rfl
          · exact announces_enterSeeking rfl
          · exact announces_seeking rfl

/-- A call makes known that it seeks or what the new rate is, if it does that, and then the new
state, if that is another one. -/
theorem announces_call (p : Pipeline T) (now : Nat) (c : PipelineCall T) :
    p.Announces (p.call now c) := by
  cases c with
  | doneInitializing =>
      simp only [call, doneInitializing]
      split_ifs
      · exact announces_enter rfl
      · exact announces_enter rfl
      · exact announces_nothing rfl
  | setDuration duration => exact announces_setDuration p now duration
  | seek time =>
      simp only [call, seek]
      split
      · exact announces_nothing rfl
      · exact announces_nothing rfl
      all_goals exact announces_enterSeeking rfl
  | setRate rate =>
      simp only [call, setRate]
      split_ifs
      · exact announces_nothing rfl
      · exact .rate { p.sync now with rate } rfl
  | play =>
      simp only [call, play]
      split
      · exact announces_nothing rfl
      · exact announces_enter rfl
      · exact announces_enterSeeking rfl
      · exact announces_enter rfl
      all_goals exact announces_nothing rfl
  | pause =>
      simp only [call, pause]
      split
      · exact announces_nothing rfl
      · exact announces_enter rfl
      · exact announces_enter rfl
      · exact announces_enter rfl
      all_goals exact announces_nothing rfl
  | bufferingStarted =>
      simp only [call, bufferingStarted]
      split_ifs
      · exact announces_enter rfl
      · exact announces_nothing rfl
  | canPlay =>
      simp only [call, canPlay]
      split
      · exact announces_nothing rfl
      · exact announces_enter rfl
      · exact announces_enter rfl
      · exact announces_enter rfl
      all_goals exact announces_nothing rfl
  | reachedEnd =>
      simp only [call, reachedEnd]
      split
      · exact announces_nothing rfl
      · exact announces_nothing rfl
      · exact announces_nothing rfl
      · exact announces_enter rfl
  | fail =>
      simp only [call, fail]
      split_ifs
      · exact announces_nothing rfl
      · exact announces_enter rfl
  | reset =>
      simp only [call, reset]
      split_ifs
      · exact announces_nothing rfl
      · exact announces_enter rfl

theorem countP_reportsError_call (clients : Clients C) (now : Nat) (c : PipelineCall T)
    (hp : p.status ≠ .errored) :
    ((p.call now c).2.flatMap (Notice.deliveries clients)).countP Delivery.reportsError =
      if (p.call now c).1.status = .errored then 1 else 0 := by
  have hchange : ∀ new,
      ((Notice.ofChange p.status new : List (Notice T)).flatMap
        (Notice.deliveries clients)).countP Delivery.reportsError =
      if new = .errored then 1 else 0 := by
    intro new
    unfold Notice.ofChange
    split_ifs with hsame hnew hnew
    · exact absurd (hsame.trans hnew) hp
    · rfl
    · simp [Notice.countP_reportsError_deliveries, Notice.toOwner, Delivery.reportsError, hnew]
    · cases new <;>
        simp_all [Notice.countP_reportsError_deliveries, Notice.toOwner, Delivery.reportsError]
  have hcall := announces_call p now c
  generalize p.call now c = r at hcall
  cases hcall with
  | state q => exact hchange q.status
  | seek q =>
      rw [List.flatMap_cons, List.countP_append, hchange q.status]
      simp [Notice.countP_reportsError_deliveries, Notice.toOwner, Delivery.reportsError]
  | rate q hstatus =>
      simp [Notice.countP_reportsError_deliveries, Notice.toOwner, hstatus, hp]

end Pipeline

/-! ## Errors -/

namespace Broadcast

variable {C T : Type} [MediaTime T] {x : Broadcast C T}

theorem act_of_errored (hx : x.pipeline.status = .errored) (a : BroadcastAction C T) :
    (x.act a).1.pipeline = x.pipeline ∧ (x.act a).2 = [] := by
  cases a with
  | call c => simp [act, Pipeline.call_of_errored hx]
  | setClock now => exact ⟨rfl, rfl⟩
  | addClient client => exact ⟨rfl, rfl⟩
  | removeClient id => exact ⟨rfl, rfl⟩

theorem actAll_of_errored (hx : x.pipeline.status = .errored) (as : List (BroadcastAction C T)) :
    (x.actAll as).1.pipeline = x.pipeline ∧ (x.actAll as).2 = [] := by
  induction as generalizing x with
  | nil => exact ⟨rfl, rfl⟩
  | cons a as ih =>
      obtain ⟨hpipeline, hsilent⟩ := act_of_errored hx a
      obtain ⟨hrest, hnone⟩ := ih (x := (x.act a).1) (hpipeline ▸ hx)
      exact ⟨hrest.trans hpipeline, by simp [actAll, hsilent, hnone]⟩

theorem countP_reportsError_act (hx : x.pipeline.status ≠ .errored) (a : BroadcastAction C T) :
    (x.act a).2.countP Delivery.reportsError =
      if (x.act a).1.pipeline.status = .errored then 1 else 0 := by
  cases a with
  | call c => exact Pipeline.countP_reportsError_call x.clients x.now c hx
  | setClock now => simp [act, hx]
  | addClient client => simp [act, hx]
  | removeClient id => simp [act, hx]

/-- In a run the owner is told of the error once if it comes to that. -/
theorem countP_reportsError_actAll (hx : x.pipeline.status ≠ .errored)
    (as : List (BroadcastAction C T)) :
    (x.actAll as).2.countP Delivery.reportsError =
      if (x.actAll as).1.pipeline.status = .errored then 1 else 0 := by
  induction as generalizing x with
  | nil => simp [actAll, hx]
  | cons a as ih =>
      have hfirst := countP_reportsError_act hx a
      simp only [actAll, List.countP_append, hfirst]
      by_cases herror : (x.act a).1.pipeline.status = .errored
      · obtain ⟨hpipeline, hnone⟩ := actAll_of_errored herror as
        simp [hpipeline, hnone, herror]
      · rw [ih herror, if_neg herror, Nat.zero_add]
        rfl

theorem currentTime_of_errored {p : Pipeline T} (hp : p.status = .errored) (now : Nat) :
    p.currentTime now = p.syncMedia := by
  simp [Pipeline.currentTime, hp]

/-- The error state is final: whatever calls are made after it and whatever the wall clock and the
clients do, the pipeline and its media time stay as they are, and nothing is made known. It is
reported to the owner once at most. -/
theorem errored_is_final (start : Nat) (before : List (BroadcastAction C T)) :
    ((new start).actAll before).2.countP Delivery.reportsError ≤ 1 ∧
      (((new start).actAll before).1.pipeline.status = .errored → ∀ after,
        let x := ((new start).actAll before).1
        let y := (x.actAll after).1
        y.pipeline.status = .errored ∧ y.pipeline.duration = x.pipeline.duration ∧
          y.pipeline.rate = x.pipeline.rate ∧ y.time = x.time ∧ (x.actAll after).2 = []) := by
  have hnew : (new start : Broadcast C T).pipeline.status ≠ .errored := by simp [new, Pipeline.new]
  constructor
  · rw [countP_reportsError_actAll hnew]
    split_ifs <;> decide
  · intro herror after x y
    obtain ⟨hpipeline, hsilent⟩ := actAll_of_errored herror after
    have hy : y.pipeline = x.pipeline := hpipeline
    refine ⟨hy ▸ herror, by rw [hy], by rw [hy], ?_, hsilent⟩
    rw [time, time, hy, currentTime_of_errored herror, currentTime_of_errored herror]

/-- Two seconds of playback, followed by one client, and then an error. -/
def failedRun : List (BroadcastAction String ExactTime) :=
  [.addClient "view", .call .doneInitializing, .call .play, .call .canPlay, .setClock 2000000000,
    .call .fail]

theorem errored_is_final_failedRun :
    let r := (new 0).actAll failedRun
    r.1.pipeline.status = .errored ∧ r.1.time = .finite 2 ∧
      r.2.countP Delivery.reportsError = 1 ∧
      ∀ after, (r.1.actAll after).1.time = .finite 2 ∧ (r.1.actAll after).2 = [] := by
  intro r
  have herror : r.1.pipeline.status = .errored := by decide +kernel
  have htime : r.1.time = .finite 2 := by decide +kernel
  refine ⟨herror, htime, by decide +kernel, fun after => ?_⟩
  obtain ⟨-, -, -, hsame, hsilent⟩ := (errored_is_final 0 failedRun).2 herror after
  exact ⟨hsame.trans htime, hsilent⟩

end Broadcast

end MediaPipeline
