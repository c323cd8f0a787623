import MediaPipeline.Sync.WaitGraph

/-!
# Mutexes

A mutex is held by one thread alone or by any number of threads that share it. Who holds it alone is
the provider of its point.
-/

namespace MediaPipeline

structure Mutex (α : Type) where
  point : PointId
  value : α
  owner : Option ThreadId := none
  sharers : List ThreadId := []
  deriving DecidableEq, Repr

namespace Mutex

variable {α : Type}

def isFree (m : Mutex α) : Bool := m.owner.isNone && m.sharers.isEmpty

def acquire (m : Mutex α) (t : ThreadId) : Mutex α := { m with owner := some t }

def share (m : Mutex α) (t : ThreadId) : Mutex α := { m with sharers := t :: m.sharers }

/-- Whatever way `t` held it. -/
def release (m : Mutex α) (t : ThreadId) : Mutex α :=
  { m with owner := if m.owner = some t then none else m.owner, sharers := m.sharers.erase t }

def isHeldBy (m : Mutex α) (t : ThreadId) : Bool := m.owner == some t || m.sharers.contains t

end Mutex

end MediaPipeline
