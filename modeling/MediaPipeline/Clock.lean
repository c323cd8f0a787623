import MediaPipeline.MediaTime

/-!
# Wall clocks

Wall times are whole nanoseconds since an arbitrary start, and durations are less than `2 ^ 64`
seconds. A hand-driven clock moves only when it is told to; it keeps whole microseconds.
-/

namespace MediaPipeline

@[ext]
structure Duration where
  nanos : Nat
  nanos_lt : nanos < UInt64.size * 1000000000
  deriving DecidableEq, Repr

namespace Duration

/-- The longest duration if there are more nanoseconds than that. -/
def ofNanos (n : Nat) : Duration :=
  ⟨min n (UInt64.size * 1000000000 - 1), Nat.lt_of_le_of_lt (Nat.min_le_right ..) (by decide)⟩

instance (n : Nat) : OfNat Duration n := ⟨ofNanos n⟩

instance : LE Duration := ⟨fun d e => d.nanos ≤ e.nanos⟩

instance : LT Duration := ⟨fun d e => d.nanos < e.nanos⟩

/-- A sum that is no duration has no value. -/
def add? (d e : Duration) : Option Duration :=
  if h : d.nanos + e.nanos < UInt64.size * 1000000000 then some ⟨d.nanos + e.nanos, h⟩ else none

end Duration

structure ManualClock where
  micros : Nat
  deriving DecidableEq, Repr

namespace ManualClock

def now (c : ManualClock) : Nat := c.micros * 1000

def nowSeconds {T : Type} [MediaTime T] (c : ManualClock) : T := MediaTime.ofNanos c.now

/-- Moves on by the whole microseconds of `nanos`. The count is a 64-bit word. -/
def advance (c : ManualClock) (nanos : Nat) : ManualClock :=
  ⟨(c.micros + nanos / 1000) % UInt64.size⟩

def set (_ : ManualClock) (nanos : Nat) : ManualClock := ⟨nanos / 1000 % UInt64.size⟩

/-- Sleeping takes no time on a clock that is moved by hand. -/
def sleep (c : ManualClock) (_nanos : Nat) : ManualClock := c

end ManualClock

end MediaPipeline
