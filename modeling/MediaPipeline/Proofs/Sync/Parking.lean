import Mathlib.Logic.Relation
import Mathlib.Tactic.Common
import MediaPipeline.Proofs.Sync.Deadlock
import MediaPipeline.Sync.Threads

/-!
# No signal is lost

A worker looks at a state that a mutex guards. If there is nothing to do it resets an event,
releases the mutex and waits for the event, which other threads signal after they have changed the
state. From its look to the reset the worker holds the mutex, so all that the reset can erase are
signals for changes that the worker has seen. A later change comes with a signal that the worker
finds or is woken by.
-/

namespace MediaPipeline

open Relation

/-! ## What the calls do to a mutex and an event -/

namespace Threads

variable {α β : Type} {s s' : Threads α β} {t : ThreadId} {i j : Nat} {m : Mutex α} {e : Event β}
  {released : Option Nat}

theorem take_of_lock (h : s.lock t i m = (some .locked, s')) :
    m.isFree = true ∧ s' = s.take t i m := by
  unfold lock lockAfter at h
  split at h
  · cases h
  · split_ifs at h with hfree
    · exact ⟨hfree, (Prod.mk.inj h).2.symm⟩
    · unfold waitOn at h
      split at h <;> cases h

/-- A mutex that nobody waits for is handed to nobody. -/
theorem grant_eq_self (hblocked : ∀ b ∈ s.blocked, waitsFor i b.2 = false) (m : Mutex α) :
    s.grant i m = s := by
  unfold grant
  rw [List.findSome?_eq_none_iff.mpr, List.filterMap_eq_nil_iff.mpr]
  · rfl
  · rintro ⟨u, b⟩ hb
    have hother := hblocked _ hb
    cases b <;> simp_all [waitsFor]
  · rintro ⟨u, b⟩ hb
    have hother := hblocked _ hb
    cases b <;> simp_all [waitsFor]

theorem exists_release (hblocked : ∀ b ∈ s.blocked, waitsFor i b.2 = false) (t : ThreadId)
    (m : Mutex α) : ∃ graph, s.release t i m =
      { s with mutexes := s.mutexes.modify i (·.release t), graph } := by
  unfold release
  generalize (if m.owner = some t then s.graph.setProvider m.point none else s.graph) = graph
  dsimp only
  refine ⟨graph, ?_⟩
  split_ifs
  · exact grant_eq_self (s := { s.modifyMutex i (·.release t) with graph }) hblocked m
  · rfl

/-- A free mutex is taken at once. -/
theorem lockAfter_of_isFree (hfree : m.isFree = true)
    (hprovider : s.graph.provider m.point ≠ some t) (i : Nat) (after : Option (EventResult β)) :
    s.lockAfter t i m after = (some (after.elim .locked .event), s.take t i m) := by
  have hsharers : t ∉ m.sharers := by
    simp only [Mutex.isFree, Bool.and_eq_true, List.isEmpty_iff] at hfree
    simp [hfree.2]
  cases after <;> simp [lockAfter, holdFailure?, hprovider, hsharers, hfree]

theorem exists_wait (h : s.wait t j e released = (none, s')) :
    ∃ graph, s' = { s with graph, blocked := s.blocked ++ [(t, .event j released)] } := by
  unfold wait at h
  split at h
  · cases h
  · unfold waitOn at h
    split at h
    · cases h
    · next graph _ => exact ⟨graph, (Prod.mk.inj h).2.symm⟩

theorem eq_of_wait {callEnd : CallEnd β} (h : s.wait t j e released = (some callEnd, s')) :
    s' = s := by
  unfold wait at h
  split at h
  · exact (Prod.mk.inj h).2.symm
  · unfold waitOn at h
    split at h
    · exact (Prod.mk.inj h).2.symm
    · cases h

/-- The thread wakes and then takes the mutex. -/
theorem wake_of_isFree (hm : s.mutexes[i]? = some m) (hfree : m.isFree = true)
    (hprovider : s.graph.provider m.point ≠ some t) (result : EventResult β) :
    s.wake result t (some i) = (s.wake result t none).take t i m := by
  have hunblocked : (s.unblock t).mutexes[i]? = some m := hm
  have hlock := lockAfter_of_isFree (s := s.unblock t) hfree hprovider i (some result)
  rw [wake, Option.bind_some, hunblocked, Option.map_some]
  simp only [hlock]
  rfl

theorem resolve_of_blocked_eq (hblocked : s.blocked = [(t, .event j released)]) (e : Event β)
    (value : β) : s.resolve j e (.set value) =
      (s.setEvent j e (.set value)).wake (.ok value) t released := by
  simp [resolve, EventState.outcome?, setEvent, hblocked]

theorem resolve_of_blocked_eq_nil (hblocked : s.blocked = []) (e : Event β) (value : β) :
    s.resolve j e (.set value) = s.setEvent j e (.set value) := by
  simp [resolve, EventState.outcome?, setEvent, hblocked]

end Threads

/-! ## A worker and the threads around it -/

/-- A worker, the mutex and the event that it uses, and what it looks for in the guarded state. -/
structure Parking (α : Type) where
  worker : ThreadId
  mutex : Nat
  event : Nat
  /-- There is something to do. -/
  isReady : α → Bool

inductive ParkingPhase where
  /-- It does not hold the mutex and does not wait. -/
  | away
  | holding
  /-- It holds the mutex and has seen that there is nothing to do. -/
  | refused
  /-- It has reset the event and still holds the mutex. -/
  | reset
  | released
  /-- Blocked on the event. -/
  | waiting
  /-- Its wait would have closed a circle of waits. -/
  | failed
  deriving DecidableEq, Repr

namespace ParkingPhase

def holds : ParkingPhase → Bool
  | holding | refused | reset => true
  | away | released | waiting | failed => false

/-- It has reset the event and has not seen a signal since. -/
def hasReset : ParkingPhase → Bool
  | reset | released | waiting => true
  | away | holding | refused | failed => false

end ParkingPhase

structure ParkingSystem (α β : Type) where
  threads : Threads α β
  phase : ParkingPhase := .away
  /-- The threads that have made the state ready and have still to signal the event. -/
  owing : List ThreadId := []

namespace ParkingSystem

variable {α β : Type}

/-- Assigns the event. The worker goes on in a step of its own. -/
def signalEvent (s : Threads α β) (j : Nat) (e : Event β) (value : β) : Threads α β :=
  match e.state.signal value with
  | some state => s.setEvent j e state
  | none => s

def changeValue (s : Threads α β) (i : Nat) (f : α → α) : Threads α β :=
  s.modifyMutex i fun m => { m with value := f m.value }

/-- Each thread makes one step at a time. A thread that asks for a mutex which is held makes its
step once the mutex is free, whoever gets it first. -/
inductive Step (k : Parking α) : ParkingSystem α β → ParkingSystem α β → Prop
  | lock {x : ParkingSystem α β} {m : Mutex α} {s : Threads α β} (hphase : x.phase = .away)
      (hm : x.threads.mutexes[k.mutex]? = some m)
      (hlock : x.threads.lock k.worker k.mutex m = (some .locked, s)) :
      Step k x { x with threads := s, phase := .holding }
  /-- The worker looks at the state and finds nothing to do. -/
  | refuse {x : ParkingSystem α β} {m : Mutex α} (hphase : x.phase = .holding)
      (hm : x.threads.mutexes[k.mutex]? = some m) (hready : k.isReady m.value = false) :
      Step k x { x with phase := .refused }
  /-- The worker changes the state itself. -/
  | work {x : ParkingSystem α β} (hphase : x.phase = .holding) (f : α → α) :
      Step k x { x with threads := changeValue x.threads k.mutex f }
  | unlock {x : ParkingSystem α β} {m : Mutex α} (hphase : x.phase = .holding)
      (hm : x.threads.mutexes[k.mutex]? = some m) :
      Step k x { x with threads := x.threads.release k.worker k.mutex m, phase := .away }
  | reset {x : ParkingSystem α β} {e : Event β} (hphase : x.phase = .refused)
      (he : x.threads.events[k.event]? = some e) :
      Step k x { x with threads := x.threads.resetEvent k.event e, phase := .reset }
  | release {x : ParkingSystem α β} {m : Mutex α} (hphase : x.phase = .reset)
      (hm : x.threads.mutexes[k.mutex]? = some m) :
      Step k x { x with threads := x.threads.release k.worker k.mutex m, phase := .released }
  | wait {x : ParkingSystem α β} {e : Event β} {s : Threads α β} (hphase : x.phase = .released)
      (he : x.threads.events[k.event]? = some e)
      (hwait : x.threads.wait k.worker k.event e (some k.mutex) = (none, s)) :
      Step k x { x with threads := s, phase := .waiting }
  /-- The event has been signalled before the worker could wait. -/
  | pass {x : ParkingSystem α β} {e : Event β} {s : Threads α β} {result : EventResult β}
      (hphase : x.phase = .released) (he : x.threads.events[k.event]? = some e)
      (hwait : x.threads.wait k.worker k.event e (some k.mutex) = (some (.event result), s)) :
      Step k x { x with threads := s, phase := .away }
  | fail {x : ParkingSystem α β} {e : Event β} {s : Threads α β} {failure : SyncFailure}
      (hphase : x.phase = .released) (he : x.threads.events[k.event]? = some e)
      (hwait : x.threads.wait k.worker k.event e (some k.mutex) = (some (.failed failure), s)) :
      Step k x { x with threads := s, phase := .failed }
  /-- The worker wakes; it has still to take the mutex again. -/
  | wake {x : ParkingSystem α β} {e : Event β} {result : EventResult β}
      (hphase : x.phase = .waiting) (he : x.threads.events[k.event]? = some e)
      (hresult : e.state.outcome? (x.threads.graph.pointName e.point) = some result) :
      Step k x { x with threads := x.threads.wake result k.worker none, phase := .away }
  | lockOther {x : ParkingSystem α β} {m : Mutex α} {s : Threads α β} {t : ThreadId}
      (ht : t ≠ k.worker) (hm : x.threads.mutexes[k.mutex]? = some m)
      (hlock : x.threads.lock t k.mutex m = (some .locked, s)) : Step k x { x with threads := s }
  /-- A thread that makes the state ready owes a signal. -/
  | change {x : ParkingSystem α β} {m : Mutex α} {t : ThreadId} (ht : t ≠ k.worker)
      (hm : x.threads.mutexes[k.mutex]? = some m) (howner : m.owner = some t) (f : α → α) :
      Step k x { x with
        threads := changeValue x.threads k.mutex f
        owing := if !k.isReady m.value && k.isReady (f m.value) then t :: x.owing else x.owing }
  | unlockOther {x : ParkingSystem α β} {m : Mutex α} {t : ThreadId} (ht : t ≠ k.worker)
      (hm : x.threads.mutexes[k.mutex]? = some m) (howner : m.owner = some t) :
      Step k x { x with threads := x.threads.release t k.mutex m }
  /-- A thread signals the event, whether it owes that or not. -/
  | signal {x : ParkingSystem α β} {e : Event β} {t : ThreadId} (ht : t ≠ k.worker)
      (he : x.threads.events[k.event]? = some e) (value : β) :
      Step k x { x with
        threads := signalEvent x.threads k.event e value
        owing := x.owing.filter (· != t) }
  /-- Waits and providers are recorded in the wait graph. -/
  | record (x : ParkingSystem α β) (graph : WaitGraph) :
      Step k x { x with threads := { x.threads with graph } }

/-! ## What holds in every state -/

/-- Nobody waits but the worker, in its phase of that name. -/
def blocked (k : Parking α) : ParkingPhase → List (ThreadId × Blocked β)
  | .waiting => [(k.worker, .event k.event (some k.mutex))]
  | _ => []

structure IsAlert (k : Parking α) (x : ParkingSystem α β) : Prop where
  blocked : x.threads.blocked = ParkingSystem.blocked k x.phase
  owner : ∀ m ∈ x.threads.mutexes[k.mutex]?,
    (m.owner = some k.worker ↔ x.phase.holds = true)
  refused : x.phase = .refused → ∀ m ∈ x.threads.mutexes[k.mutex]?, k.isReady m.value = false
  owing : x.phase.hasReset = true → ∀ m ∈ x.threads.mutexes[k.mutex]?, k.isReady m.value = true →
    ∀ e ∈ x.threads.events[k.event]?, e.state = .pending → x.owing ≠ []

variable {k : Parking α} {x y : ParkingSystem α β} {m : Mutex α} {e : Event β} {t : ThreadId}

theorem IsAlert.not_waitsFor (hx : x.IsAlert k) :
    ∀ b ∈ x.threads.blocked, Threads.waitsFor k.mutex b.2 = false := by
  rw [hx.blocked]
  cases x.phase <;> simp [ParkingSystem.blocked, Threads.waitsFor]

/-- The mutex and the event stay as they are. -/
theorem IsAlert.keep (hx : x.IsAlert k) {s : Threads α β} {phase : ParkingPhase}
    (hblocked : s.blocked = ParkingSystem.blocked k phase)
    (hmutexes : s.mutexes = x.threads.mutexes) (hevents : s.events = x.threads.events)
    (hholds : phase.holds = x.phase.holds) (hrefused : phase = .refused → x.phase = .refused)
    (hreset : phase.hasReset = true → x.phase.hasReset = true) :
    IsAlert k { x with threads := s, phase } := by
  refine ⟨hblocked, ?_, ?_, ?_⟩
  · simpa only [hmutexes, hholds] using hx.owner
  · intro hphase
    simpa only [hmutexes] using hx.refused (hrefused hphase)
  · intro hphase
    simpa only [hmutexes, hevents] using hx.owing (hreset hphase)

/-- The mutex is taken or released. -/
theorem IsAlert.modifyMutex (hx : x.IsAlert k) {s : Threads α β} {phase : ParkingPhase}
    {f : Mutex α → Mutex α} (hm : x.threads.mutexes[k.mutex]? = some m)
    (hblocked : s.blocked = ParkingSystem.blocked k phase)
    (hmutexes : s.mutexes = x.threads.mutexes.modify k.mutex f)
    (hevents : s.events = x.threads.events) (hvalue : (f m).value = m.value)
    (howner : (f m).owner = some k.worker ↔ phase.holds = true)
    (hrefused : phase = .refused → x.phase = .refused)
    (hreset : phase.hasReset = true → x.phase.hasReset = true) :
    IsAlert k { x with threads := s, phase } := by
  have hmutex : s.mutexes[k.mutex]? = some (f m) := by
    rw [hmutexes, List.getElem?_modify_eq, hm]
    rfl
  refine ⟨hblocked, ?_, ?_, ?_⟩
  · simpa [hmutex] using howner
  · intro hphase
    simpa [hmutex, hvalue] using hx.refused (hrefused hphase) m hm
  · intro hphase
    simpa [hmutex, hvalue, hevents] using hx.owing (hreset hphase) m hm

/-- A signal leaves the event assigned, by this thread or by one before it. -/
theorem exists_signalEvent {s : Threads α β} {j : Nat} (he : s.events[j]? = some e) (value : β) :
    ∃ graph events, signalEvent s j e value = { s with graph, events } ∧
      ∃ e', events[j]? = some e' ∧ e'.state ≠ .pending := by
  unfold signalEvent EventState.signal
  cases hstate : e.state with
  | set old => exact ⟨s.graph, s.events, rfl, e, he, by simp [hstate]⟩
  | pending | abandoned =>
      have hlt : j < s.events.length := (List.getElem?_eq_some_iff.mp he).1
      refine ⟨_, _, rfl, { e with state := .set value }, ?_, by simp⟩
      simp [hlt]

theorem IsAlert.blocked_eq_nil (hx : x.IsAlert k) (hphase : x.phase ≠ .waiting) :
    x.threads.blocked = [] := by
  rw [hx.blocked]
  unfold ParkingSystem.blocked
  split
  · contradiction
  · rfl

/-- While another thread holds the mutex, the worker does not. -/
theorem IsAlert.holds_eq_false (hx : x.IsAlert k) (hm : x.threads.mutexes[k.mutex]? = some m)
    (howner : m.owner ≠ some k.worker) : x.phase.holds = false := by
  rw [← Bool.not_eq_true, ← hx.owner m hm]
  exact howner

theorem Step.isAlert (h : Step k x y) (hx : x.IsAlert k) : y.IsAlert k := by
  cases h with
  | lock hphase hm hlock =>
      obtain ⟨-, rfl⟩ := Threads.take_of_lock hlock
      exact hx.modifyMutex hm (hx.blocked_eq_nil (by simp [hphase])) rfl rfl rfl
        (by simp [Mutex.acquire, ParkingPhase.holds]) nofun nofun
  | @refuse m hphase hm hready =>
      refine ⟨hx.blocked_eq_nil (by simp [hphase]), ?_, ?_, nofun⟩
      · intro m' hm'
        rw [hx.owner m' hm', hphase]
        simp [ParkingPhase.holds]
      · rintro - m' hm'
        obtain rfl : m = m' := Option.some.inj (hm.symm.trans hm')
        exact hready
  | work hphase f =>
      refine ⟨hx.blocked, ?_, by simp [hphase], by simp [hphase, ParkingPhase.hasReset]⟩
      simpa [changeValue, Threads.modifyMutex, List.getElem?_modify_eq] using hx.owner
  | @unlock m hphase hm =>
      obtain ⟨graph, hrelease⟩ := Threads.exists_release hx.not_waitsFor k.worker m
      rw [hrelease]
      refine hx.modifyMutex hm (hx.blocked_eq_nil (by simp [hphase])) rfl rfl rfl ?_ nofun nofun
      simp [Mutex.release, ParkingPhase.holds]
  | @reset e hphase he =>
      -- the state is not ready, so no signal for it can be owed
      refine ⟨hx.blocked_eq_nil (by simp [hphase]), ?_, nofun, ?_⟩
      · intro m hm
        rw [hx.owner m hm, hphase]
        simp [ParkingPhase.holds]
      · rintro - m hm hready
        rw [hx.refused hphase m hm] at hready
        cases hready
  | @release m hphase hm =>
      obtain ⟨graph, hrelease⟩ := Threads.exists_release hx.not_waitsFor k.worker m
      rw [hrelease]
      refine hx.modifyMutex hm (hx.blocked_eq_nil (by simp [hphase])) rfl rfl rfl ?_ nofun ?_
      · simp [Mutex.release, ParkingPhase.holds]
      · simp [hphase, ParkingPhase.hasReset]
  | wait hphase he hwait =>
      obtain ⟨graph, rfl⟩ := Threads.exists_wait hwait
      refine hx.keep ?_ rfl rfl (by rw [hphase]; rfl) nofun ?_
      · simp [hx.blocked_eq_nil (by simp [hphase]), ParkingSystem.blocked]
      · simp [hphase, ParkingPhase.hasReset]
  | pass hphase he hwait =>
      obtain rfl := Threads.eq_of_wait hwait
      exact hx.keep (hx.blocked_eq_nil (by simp [hphase])) rfl rfl (by rw [hphase]; rfl) nofun nofun
  | fail hphase he hwait =>
      obtain rfl := Threads.eq_of_wait hwait
      exact hx.keep (hx.blocked_eq_nil (by simp [hphase])) rfl rfl (by rw [hphase]; rfl) nofun nofun
  | wake hphase he hresult =>
      refine hx.keep ?_ rfl rfl (by rw [hphase]; rfl) nofun nofun
      simp [Threads.wake, Threads.unblock, Threads.finish, hx.blocked, hphase,
        ParkingSystem.blocked]
  | @lockOther m s t ht hm hlock =>
      obtain ⟨hfree, rfl⟩ := Threads.take_of_lock hlock
      have hnone : m.owner = none := by
        simp only [Mutex.isFree, Bool.and_eq_true, Option.isNone_iff_eq_none] at hfree
        exact hfree.1
      have hholds := hx.holds_eq_false hm (by simp [hnone])
      exact hx.modifyMutex hm hx.blocked rfl rfl rfl (by simp [Mutex.acquire, hholds, ht]) id id
  | @change m t ht hm howner f =>
      have hholds := hx.holds_eq_false hm (by simpa [howner] using ht)
      have hmutex : (changeValue x.threads k.mutex f).mutexes[k.mutex]? =
          some { m with value := f m.value } := by
        simp [changeValue, Threads.modifyMutex, List.getElem?_modify_eq, hm]
      refine ⟨hx.blocked, ?_, ?_, ?_⟩
      · simpa [hmutex] using hx.owner m hm
      · intro hphase
        rw [hphase] at hholds
        cases hholds
      · rintro hreset m' hm' hready e he hpending
        obtain rfl : { m with value := f m.value } = m' := Option.some.inj (hmutex.symm.trans hm')
        cases hbefore : k.isReady m.value with
        | false => simp [show k.isReady (f m.value) = true from hready]
        | true => simpa [hbefore] using hx.owing hreset m hm hbefore e he hpending
  | @unlockOther m t ht hm howner =>
      obtain ⟨graph, hrelease⟩ := Threads.exists_release hx.not_waitsFor t m
      have hholds := hx.holds_eq_false hm (by simpa [howner] using ht)
      rw [hrelease]
      exact hx.modifyMutex hm hx.blocked rfl rfl rfl (by simp [Mutex.release, howner, hholds]) id id
  | signal ht he value =>
      obtain ⟨graph, events, hsignal, e', he', hstate⟩ := exists_signalEvent he value
      rw [hsignal]
      refine ⟨hx.blocked, hx.owner, hx.refused, ?_⟩
      rintro - m hm hready e'' he'' hpending
      obtain rfl : e' = e'' := Option.some.inj (he'.symm.trans he'')
      exact absurd hpending hstate
  | record graph => exact ⟨hx.blocked, hx.owner, hx.refused, hx.owing⟩

/-! ## Runs -/

theorem isAlert_of_reach (h : ReflTransGen (Step k) x y) (hx : x.IsAlert k) : y.IsAlert k := by
  induction h with
  | refl => exact hx
  | tail _ hstep ih => exact hstep.isAlert ih

/-- To wait with the mutex released is, if nobody interrupts it, a run of three steps. -/
theorem reach_waitUnlocked (hx : x.IsAlert k) (hphase : x.phase = .refused)
    (hm : x.threads.mutexes[k.mutex]? = some m) (he : x.threads.events[k.event]? = some e) :
    ∃ phase, ReflTransGen (Step k) x
        { x with
          threads := (x.threads.waitUnlocked k.worker k.mutex m k.event e).2
          phase } ∧
      ((x.threads.waitUnlocked k.worker k.mutex m k.event e).1 = none ↔ phase = .waiting) := by
  let s₁ := x.threads.resetEvent k.event e
  let s₂ := s₁.release k.worker k.mutex m
  let e' : Event β := { e with state := .pending }
  have hreset : Step k x { x with threads := s₁, phase := .reset } := .reset hphase he
  have hrelease : Step k { x with threads := s₁, phase := .reset }
      { x with threads := s₂, phase := .released } := .release rfl hm
  have he' : s₂.events[k.event]? = some e' := by
    have hblocked : ∀ b ∈ s₁.blocked, Threads.waitsFor k.mutex b.2 = false := hx.not_waitsFor
    obtain ⟨graph, hs₂⟩ := Threads.exists_release hblocked k.worker m
    have hlt : k.event < x.threads.events.length := (List.getElem?_eq_some_iff.mp he).1
    simp [s₂, hs₂, s₁, Threads.resetEvent, Threads.setEvent, hlt, e']
  have hboth := (ReflTransGen.single hreset).tail hrelease
  have hcall : x.threads.waitUnlocked k.worker k.mutex m k.event e =
      s₂.waitOn k.worker e'.point (.event k.event (some k.mutex)) := rfl
  rw [hcall]
  cases hbegin : s₂.graph.beginWait k.worker e'.point with
  | error hops =>
      have hwait : s₂.waitOn k.worker e'.point (.event k.event (some k.mutex)) =
          (some (.failed (s₂.deadlock hops)), s₂) := by
        simp only [Threads.waitOn, hbegin]
      exact ⟨.failed, hboth.tail (hwait ▸ .fail rfl he' hwait), by simp [hwait]⟩
  | ok graph =>
      have hwait : s₂.waitOn k.worker e'.point (.event k.event (some k.mutex)) =
          (none, { s₂ with graph }.block k.worker (.event k.event (some k.mutex))) := by
        simp only [Threads.waitOn, hbegin]
      exact ⟨.waiting, hboth.tail (hwait ▸ .wait rfl he' hwait), by simp [hwait]⟩

/-- To signal, with all that the worker does then if the mutex is free, is such a run too. -/
theorem reach_resolve {value : β} {state : EventState β} (hx : x.IsAlert k) (ht : t ≠ k.worker)
    (hm : x.threads.mutexes[k.mutex]? = some m)
    (hfree : x.phase = .waiting →
      m.isFree = true ∧ x.threads.graph.provider m.point ≠ some k.worker)
    (he : x.threads.events[k.event]? = some e) (hstate : e.state.signal value = some state) :
    ∃ phase, ReflTransGen (Step k) x
      { threads := x.threads.resolve k.event e state
        phase
        owing := x.owing.filter (· != t) } := by
  let s := x.threads.setEvent k.event e state
  have hsignal : Step k x { x with threads := s, owing := x.owing.filter (· != t) } := by
    have hsignals := Step.signal (k := k) ht he value
    rwa [signalEvent, hstate] at hsignals
  obtain rfl : state = .set value := by
    unfold EventState.signal at hstate
    split_ifs at hstate
    exact (Option.some.inj hstate).symm
  by_cases hphase : x.phase = .waiting
  · obtain ⟨hfree, hprovider⟩ := hfree hphase
    let s' := s.wake (.ok value) k.worker none
    have he' : s.events[k.event]? = some { e with state := .set value } := by
      have hlt : k.event < x.threads.events.length := (List.getElem?_eq_some_iff.mp he).1
      simp [s, Threads.setEvent, hlt]
    have hwake : Step k { x with threads := s, owing := x.owing.filter (· != t) }
        { x with threads := s', phase := .away, owing := x.owing.filter (· != t) } :=
      .wake hphase he' rfl
    have hprovider' : s.graph.provider m.point ≠ some k.worker := by
      rwa [← WaitGraph.provider_setResolved (q := e.point) true] at hprovider
    have hlock : s'.lock k.worker k.mutex m = (some .locked, s'.take k.worker k.mutex m) :=
      Threads.lockAfter_of_isFree (s := s') hfree hprovider' k.mutex none
    have hblocked : x.threads.blocked = [(k.worker, .event k.event (some k.mutex))] := by
      rw [hx.blocked, hphase]
      rfl
    have hresolve : x.threads.resolve k.event e (.set value) = s'.take k.worker k.mutex m := by
      rw [Threads.resolve_of_blocked_eq hblocked]
      exact Threads.wake_of_isFree (s := s) hm hfree hprovider' (.ok value)
    rw [hresolve]
    exact ⟨.holding, ((ReflTransGen.single hsignal).tail hwake).tail (.lock rfl hm hlock)⟩
  · rw [Threads.resolve_of_blocked_eq_nil (hx.blocked_eq_nil hphase)]
    exact ⟨x.phase, .single hsignal⟩

/-- The worker waits although there is something to do, and nobody is left to signal the event. -/
structure IsLost (k : Parking α) (x : ParkingSystem α β) : Prop where
  blocked : (k.worker, .event k.event (some k.mutex)) ∈ x.threads.blocked
  ready : ∃ m ∈ x.threads.mutexes[k.mutex]?, k.isReady m.value = true
  pending : ∃ e ∈ x.threads.events[k.event]?, e.state = .pending
  settled : x.owing = []

theorem IsAlert.not_isLost (hx : x.IsAlert k) : ¬ x.IsLost k := by
  rintro ⟨hblocked, ⟨m, hm, hready⟩, ⟨e, he, hpending⟩, hsettled⟩
  have hphase : x.phase = .waiting := by
    by_contra hphase
    rw [hx.blocked_eq_nil hphase] at hblocked
    cases hblocked
  exact hx.owing (by rw [hphase]; rfl) m hm hready e he hpending hsettled

/-- Whatever the threads do in whatever order, the worker does not wait on while there is something
to do, unless the event has been signalled or some thread has still to do that. -/
theorem no_signal_lost {s : Threads α β} (hblocked : s.blocked = [])
    (howner : ∀ m ∈ s.mutexes[k.mutex]?, m.owner ≠ some k.worker)
    (h : ReflTransGen (Step k) { threads := s } x) : ¬ x.IsLost k := by
  have hstart : IsAlert k ({ threads := s } : ParkingSystem α β) := by
    refine ⟨hblocked, ?_, nofun, nofun⟩
    intro m hm
    simpa [ParkingPhase.holds] using howner m hm
  exact (isAlert_of_reach h hstart).not_isLost

/-- Thread 0 waits for a count that is not zero. -/
def countWorker : Parking ℕ := ⟨0, 0, 0, (· != 0)⟩

/-- The mutex with its owner, and the event. -/
def counting (count : ℕ) (owner : Option ThreadId) (state : EventState Unit) : Threads ℕ Unit where
  graph :=
    { points := [{ name := "count", provider := owner },
        { name := "counted", resolved := state.isResolved }] }
  mutexes := [{ point := 0, value := count, owner }]
  events := [{ point := 1, state }]

/-- Thread 0 waits, and thread 2 holds the mutex. -/
def waitingForCount : Threads ℕ Unit :=
  let s := counting 1 (some 2) .pending
  { s with
    graph := { s.graph with waiting := [(0, 1)] }
    blocked := [(0, .event 0 (some 0))] }

/-- Thread 1 counts, and signals only after the worker has seen the count, taken it back and looked
again. The reset erases this signal. Thread 2 counts before the worker waits. -/
theorem reach_waitingForCount :
    ReflTransGen (Step countWorker) { threads := counting 0 none .pending }
      ⟨waitingForCount, .waiting, [2]⟩ := by
  have hlock₁ : Step countWorker ⟨counting 0 none .pending, .away, []⟩
      ⟨counting 0 (some 1) .pending, .away, []⟩ := .lockOther (t := 1) (by decide) rfl rfl
  have hcount₁ : Step countWorker ⟨counting 0 (some 1) .pending, .away, []⟩
      ⟨counting 1 (some 1) .pending, .away, [1]⟩ :=
    .change (m := ⟨0, 0, some 1, []⟩) (by decide) rfl rfl (· + 1)
  have hunlock₁ : Step countWorker ⟨counting 1 (some 1) .pending, .away, [1]⟩
      ⟨counting 1 none .pending, .away, [1]⟩ :=
    .unlockOther (m := ⟨0, 1, some 1, []⟩) (by decide) rfl rfl
  have hlock : Step countWorker ⟨counting 1 none .pending, .away, [1]⟩
      ⟨counting 1 (some 0) .pending, .holding, [1]⟩ := .lock rfl rfl rfl
  have hwork : Step countWorker ⟨counting 1 (some 0) .pending, .holding, [1]⟩
      ⟨counting 0 (some 0) .pending, .holding, [1]⟩ := .work rfl (· - 1)
  have hrefuse : Step countWorker ⟨counting 0 (some 0) .pending, .holding, [1]⟩
      ⟨counting 0 (some 0) .pending, .refused, [1]⟩ := .refuse rfl rfl rfl
  have hsignal₁ : Step countWorker ⟨counting 0 (some 0) .pending, .refused, [1]⟩
      ⟨counting 0 (some 0) (.set ()), .refused, []⟩ :=
    .signal (t := 1) (e := ⟨1, .pending⟩) (by decide) rfl ()
  have hreset : Step countWorker ⟨counting 0 (some 0) (.set ()), .refused, []⟩
      ⟨counting 0 (some 0) .pending, .reset, []⟩ := .reset (e := ⟨1, .set ()⟩) rfl rfl
  have hrelease : Step countWorker ⟨counting 0 (some 0) .pending, .reset, []⟩
      ⟨counting 0 none .pending, .released, []⟩ := .release (m := ⟨0, 0, some 0, []⟩) rfl rfl
  have hlock₂ : Step countWorker ⟨counting 0 none .pending, .released, []⟩
      ⟨counting 0 (some 2) .pending, .released, []⟩ := .lockOther (t := 2) (by decide) rfl rfl
  have hcount₂ : Step countWorker ⟨counting 0 (some 2) .pending, .released, []⟩
      ⟨counting 1 (some 2) .pending, .released, [2]⟩ :=
    .change (m := ⟨0, 0, some 2, []⟩) (by decide) rfl rfl (· + 1)
  have hwait : Step countWorker ⟨counting 1 (some 2) .pending, .released, [2]⟩
      ⟨waitingForCount, .waiting, [2]⟩ := .wait rfl rfl (by cbv)
  have hseen := (((((ReflTransGen.single hlock₁).tail hcount₁).tail hunlock₁).tail hlock).tail
    hwork).tail hrefuse
  exact (((((hseen.tail hsignal₁).tail hreset).tail hrelease).tail hlock₂).tail hcount₂).tail hwait

/-- In this state the signal would be lost if nobody owed it. -/
theorem no_signal_lost_waitingForCount :
    (counting 0 none .pending).blocked = [] ∧
      (∀ m ∈ (counting 0 none .pending).mutexes[0]?, m.owner ≠ some 0) ∧
      ReflTransGen (Step countWorker) { threads := counting 0 none .pending }
        ⟨waitingForCount, .waiting, [2]⟩ ∧
      IsLost countWorker ⟨waitingForCount, .waiting, []⟩ ∧
      ¬ IsLost countWorker ⟨waitingForCount, .waiting, [2]⟩ := by
  have howner : ∀ m ∈ (counting 0 none .pending).mutexes[0]?, m.owner ≠ some 0 := by
    simp [counting]
  have hunowed : IsLost countWorker ⟨waitingForCount, .waiting, []⟩ :=
    ⟨List.mem_singleton_self _, ⟨_, rfl, rfl⟩, ⟨_, rfl, rfl⟩, rfl⟩
  exact ⟨rfl, howner, reach_waitingForCount, hunowed,
    no_signal_lost rfl howner reach_waitingForCount⟩

end ParkingSystem

end MediaPipeline
