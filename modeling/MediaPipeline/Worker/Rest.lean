/-!
# Rest

A worker goes on by itself until it rests. From a sleep it is released by the clock, from parking by
a signal, and an exit is final.
-/

namespace MediaPipeline

inductive Rest where
  | running
  | sleeping (nanos : Nat)
  | parked
  | exited
  deriving DecidableEq, Repr

end MediaPipeline
