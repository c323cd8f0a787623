import MediaPipeline.Pipeline.Basic

/-!
# Clients

Clients are told of every notice in the order of registration. The owner of the pipeline hears of
seeks and of new states before the clients do; a change of rate is for clients only.
-/

namespace MediaPipeline

/-- Registered clients. Each registration has its own number, from one upwards. -/
structure Clients (C : Type) where
  lastId : Nat
  entries : List (Nat × C)
  deriving DecidableEq, Repr

namespace Clients

variable {C : Type}

def empty : Clients C := ⟨0, []⟩

def add (cs : Clients C) (client : C) : Nat × Clients C :=
  (cs.lastId + 1, ⟨cs.lastId + 1, cs.entries ++ [(cs.lastId + 1, client)]⟩)

def remove (cs : Clients C) (id : Nat) : Clients C :=
  { cs with entries := cs.entries.filter (·.1 != id) }

def toList (cs : Clients C) : List C := cs.entries.map Prod.snd

end Clients

/-- One step of making something known. -/
inductive Delivery (C T : Type) where
  | ownerSeeking
  | ownerState (new : PlaybackState)
  | client (client : C) (notice : Notice T)
  deriving DecidableEq, Repr

namespace Notice

variable {C T : Type}

def toOwner : Notice T → List (Delivery C T)
  | seeking => [.ownerSeeking]
  | stateChanged _ new => [.ownerState new]
  | rateChanged _ _ => []

def deliveries (clients : Clients C) (n : Notice T) : List (Delivery C T) :=
  n.toOwner ++ clients.toList.map (.client · n)

end Notice

end MediaPipeline
