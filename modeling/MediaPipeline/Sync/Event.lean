import MediaPipeline.Error
import MediaPipeline.Sync.WaitGraph

/-!
# Events

An event is assigned a value once. Every thread that waits on it gets the value, or an error if the
event is abandoned instead. A reset makes it pending again.
-/

namespace MediaPipeline

inductive EventState (α : Type) where
  | pending
  | set (value : α)
  | abandoned
  deriving DecidableEq, Repr

namespace EventState

variable {α : Type}

def isSet : EventState α → Bool
  | set _ => true
  | _ => false

def isPending : EventState α → Bool
  | pending => true
  | _ => false

def isResolved (s : EventState α) : Bool := !s.isPending

/-- An abandoned event can still be assigned. -/
def signal (value : α) (s : EventState α) : Option (EventState α) :=
  if s.isSet then none else some (set value)

def abandon (s : EventState α) : Option (EventState α) :=
  if s.isPending then some abandoned else none

/-- What waiting on the event `name` gives, once it is over. -/
def outcome? (name : String) : EventState α → Option (Except ServiceError α)
  | pending => none
  | set value => some (.ok value)
  | abandoned => some (.error (.abandoned name))

end EventState

/-- An event; its point is resolved when it is not pending. -/
structure Event (α : Type) where
  point : PointId
  state : EventState α := .pending
  deriving DecidableEq, Repr

end MediaPipeline
