import MediaPipeline.Sync.Event
import MediaPipeline.Sync.Mutex

/-!
# Threads that wait for each other

Threads that share mutexes and events. A thread that has to wait is recorded in the wait graph
first; if that would close a cycle the call fails instead, and the thread does not wait.

Everything here is one step of one thread. A step can let other threads go on: they run up to the
end of the call they were blocked in, or until they are blocked again.
-/

namespace MediaPipeline

/-- Why a call of a thread fails for good. -/
inductive SyncFailure where
  | recursiveLock (mutex : String)
  | lockWhileSharing (mutex : String)
  | deadlock (report : String)
  deriving DecidableEq, Repr

namespace SyncFailure

def message : SyncFailure → String
  | recursiveLock mutex => mutex ++ ": recursive lock of a non-recursive mutex"
  | lockWhileSharing mutex => mutex ++ ": lock requested while holding it shared"
  | deadlock report => "deadlock detected:\n" ++ report

end SyncFailure

abbrev EventResult (β : Type) := Except ServiceError β

/-- How a call ends that may have blocked. -/
inductive CallEnd (β : Type := Int) where
  | locked
  | shared
  | event (result : EventResult β)
  | failed (failure : SyncFailure)

/-- What a thread is blocked in. -/
inductive Blocked (β : Type) where
  /-- A mutex that it will hold alone. After a wait on an event the result of that is kept. -/
  | lock (mutex : Nat) (after : Option (EventResult β))
  | lockShared (mutex : Nat)
  /-- An event, and the mutex that was released to wait on it. -/
  | event (event : Nat) (released : Option Nat)

/-- The mutexes guard values of the one type, the events are assigned values of the other. -/
structure Threads (α β : Type) where
  graph : WaitGraph
  mutexes : List (Mutex α)
  events : List (Event β)
  /-- The blocked threads, the one that has waited longest first. -/
  blocked : List (ThreadId × Blocked β) := []
  ended : List (ThreadId × CallEnd β) := []

namespace Threads

variable {α β : Type}

def modifyMutex (s : Threads α β) (i : Nat) (f : Mutex α → Mutex α) : Threads α β :=
  { s with mutexes := s.mutexes.modify i f }

def setEvent (s : Threads α β) (i : Nat) (e : Event β) (state : EventState β) : Threads α β :=
  { s with events := s.events.set i { e with state }
           graph := s.graph.setResolved e.point state.isResolved }

def deadlock (s : Threads α β) (hops : List Hop) : SyncFailure := .deadlock (s.graph.report hops)

def block (s : Threads α β) (t : ThreadId) (b : Blocked β) : Threads α β :=
  { s with blocked := s.blocked ++ [(t, b)] }

def finish (s : Threads α β) (t : ThreadId) (result : CallEnd β) : Threads α β :=
  { s with ended := s.ended ++ [(t, result)] }

def unblock (s : Threads α β) (t : ThreadId) : Threads α β :=
  { s with blocked := s.blocked.filter (·.1 != t), graph := s.graph.endWait t }

/-! ## Mutexes -/

/-- A thread must not hold the mutex it asks for. -/
def holdFailure? (s : Threads α β) (t : ThreadId) (m : Mutex α) : Option SyncFailure :=
  if s.graph.provider m.point = some t then some (.recursiveLock (s.graph.pointName m.point))
  else if m.sharers.contains t then some (.lockWhileSharing (s.graph.pointName m.point))
  else none

def take (s : Threads α β) (t : ThreadId) (i : Nat) (m : Mutex α) : Threads α β :=
  { s.modifyMutex i (·.acquire t) with graph := s.graph.setProvider m.point (some t) }

def share (s : Threads α β) (t : ThreadId) (i : Nat) : Threads α β :=
  s.modifyMutex i (·.share t)

def waitsFor (i : Nat) : Blocked β → Bool
  | .lock j _ => i == j
  | .lockShared j => i == j
  | .event _ _ => false

/-- A mutex can be shared while nobody holds it alone or waits for it. -/
def canShare (s : Threads α β) (i : Nat) (m : Mutex α) : Bool :=
  m.owner.isNone && !s.blocked.any fun (_, b) => waitsFor i b

/-- How a call ends, or none if it blocks. -/
abbrev Call (α β : Type) := Option (CallEnd β) × Threads α β

/-- Records the wait on `point` and blocks, unless that would close a cycle. -/
def waitOn (s : Threads α β) (t : ThreadId) (point : PointId) (b : Blocked β) : Call α β :=
  match s.graph.beginWait t point with
  | .error hops => (some (.failed (s.deadlock hops)), s)
  | .ok graph => (none, { s with graph }.block t b)

/-- Takes the mutex. The call ends with the result of the wait on an event that it is part of. -/
def lockAfter (s : Threads α β) (t : ThreadId) (i : Nat) (m : Mutex α)
    (after : Option (EventResult β)) : Call α β :=
  match s.holdFailure? t m with
  | some failure => (some (.failed failure), s)
  | none =>
    if m.isFree then
      (some (match after with | some r => .event r | none => .locked), s.take t i m)
    else s.waitOn t m.point (.lock i after)

def lock (s : Threads α β) (t : ThreadId) (i : Nat) (m : Mutex α) : Call α β :=
  s.lockAfter t i m none

def tryLock (s : Threads α β) (t : ThreadId) (i : Nat) (m : Mutex α) : Call α β :=
  match s.holdFailure? t m with
  | some failure => (some (.failed failure), s)
  | none => if m.isFree then (some .locked, s.take t i m) else (none, s)

def lockShared (s : Threads α β) (t : ThreadId) (i : Nat) (m : Mutex α) : Call α β :=
  match s.holdFailure? t m with
  | some failure => (some (.failed failure), s)
  | none =>
    if s.canShare i m then (some .shared, s.share t i)
    else s.waitOn t m.point (.lockShared i)

/-- Hands a free mutex to the thread that has waited longest to hold it alone, or else to all
threads that wait to share it. -/
def grant (s : Threads α β) (i : Nat) (m : Mutex α) : Threads α β :=
  let alone := s.blocked.findSome? fun (t, b) => match b with
    | .lock j after => if i = j then some (t, after) else none
    | _ => none
  match alone with
  | some (t, after) =>
    ((s.unblock t).take t i m).finish t (match after with | some r => .event r | none => .locked)
  | none =>
    let sharers := s.blocked.filterMap fun (t, b) => match b with
      | .lockShared j => if i = j then some t else none
      | _ => none
    sharers.foldl (fun s t => ((s.unblock t).share t i).finish t .shared) s

/-- The owner is forgotten before another thread can take the mutex. -/
def release (s : Threads α β) (t : ThreadId) (i : Nat) (m : Mutex α) : Threads α β :=
  let graph := if m.owner = some t then s.graph.setProvider m.point none else s.graph
  let s := { s.modifyMutex i (·.release t) with graph }
  if (m.release t).isFree then s.grant i m else s

/-! ## Events -/

/-- Lets a thread go on that waited on the event. -/
def wake (s : Threads α β) (result : EventResult β) (t : ThreadId) (released : Option Nat) :
    Threads α β :=
  let s := s.unblock t
  match released.bind fun i => s.mutexes[i]?.map (i, ·) with
  | none => s.finish t (.event result)
  | some (i, m) =>
    match s.lockAfter t i m (some result) with
    | (none, s) => s
    | (some callEnd, s) => s.finish t callEnd

/-- Gives the event a new state, which ends all waits on it unless it is pending. -/
def resolve (s : Threads α β) (i : Nat) (e : Event β) (state : EventState β) : Threads α β :=
  let s := s.setEvent i e state
  match state.outcome? (s.graph.pointName e.point) with
  | none => s
  | some result =>
    let waiters := s.blocked.filterMap fun (t, b) => match b with
      | .event j released => if i = j then some (t, released) else none
      | _ => none
    waiters.foldl (fun s (t, released) => s.wake result t released) s

/-- The threads that wait on the event go on waiting. -/
def resetEvent (s : Threads α β) (i : Nat) (e : Event β) : Threads α β :=
  s.setEvent i e .pending

def wait (s : Threads α β) (t : ThreadId) (i : Nat) (e : Event β) (released : Option Nat) :
    Call α β :=
  match e.state.outcome? (s.graph.pointName e.point) with
  | some result => (some (.event result), s)
  | none => s.waitOn t e.point (.event i released)

/-- A wait that nobody ends in time. -/
def waitBriefly (s : Threads α β) (t : ThreadId) (i : Nat) (e : Event β) : Call α β :=
  match s.wait t i e none with
  | (none, s) =>
    (some (.event (.error (.timeout (s.graph.pointName e.point)))), s.unblock t)
  | ended => ended

/-- Resets the event, releases the mutex, waits on the event and takes the mutex again. The event is
reset while the mutex is still held, so that a signal of a thread that takes it next is not lost. -/
def waitUnlocked (s : Threads α β) (t : ThreadId) (i : Nat) (m : Mutex α) (j : Nat)
    (e : Event β) : Call α β :=
  ((s.resetEvent j e).release t i m).wait t j { e with state := .pending } (some i)

end Threads

end MediaPipeline
