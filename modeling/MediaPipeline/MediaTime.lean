import MediaPipeline.Number.Binary64

/-!
# Media times

Times are seconds. Everything that computes with them is written over `MediaTime`, so that one
definition runs on doubles and is reasoned about over exact numbers. The comparisons are those of
an order that may hold a value which is not comparable, even to itself.
-/

namespace MediaPipeline

/-- A type of times in seconds. Wall clocks count whole nanoseconds. -/
class MediaTime (T : Type) extends Zero T, One T, Neg T, Add T, Sub T, Mul T, Div T, LE T, LT T,
    BEq T, OfScientific T where
  decidableLE (a b : T) : Decidable (a ≤ b)
  decidableLT (a b : T) : Decidable (a < b)
  negInf : T
  posInf : T
  ofNat : Nat → T
  /-- The seconds in a number of nanoseconds. -/
  ofNanos : Nat → T
  /-- The nearest number of nanoseconds, if the time is a length that a wall clock can measure. -/
  toNanos? : T → Option Nat
  /-- The whole part, as a signed 64-bit word where `T` is a machine type. -/
  truncate : T → Int
  /-- The whole part, zero for a negative time. -/
  floorNat : T → Nat
  /-- The nearest whole number, a half going up; zero for a negative time. -/
  roundNat : T → Nat

namespace MediaTime

variable {T : Type} [MediaTime T]

instance (a b : T) : Decidable (a ≤ b) := decidableLE a b

instance (a b : T) : Decidable (a < b) := decidableLT a b

def isNaN (t : T) : Bool := !(t == t)

def isFinite (t : T) : Bool := decide (negInf < t) && decide (t < posInf)

/-- The lesser of two times; a value that is not a number gives way to the other. -/
def earlier (a b : T) : T :=
  if a ≤ b then a else if isNaN b then a else b

/-- The greater of two times; a value that is not a number gives way to the other. -/
def later (a b : T) : T :=
  if b ≤ a then a else if isNaN b then a else b

def clamp (t lo hi : T) : T :=
  if t < lo then lo else if hi < t then hi else t

def abs (t : T) : T := if t < 0 then -t else t

end MediaTime

/-! ## Doubles -/

namespace Binary64

/-- Whole nanoseconds, exactly rounded. A negative time, an infinite one and one of `2 ^ 64`
seconds or more have none. -/
def toNanos? : Binary64 → Option Nat
  | finite negative mantissa exponent =>
    let (num, den) := fraction mantissa exponent
    if (negative && mantissa != 0) || UInt64.size * den ≤ num then none
    else some (roundHalfEven (num * 1000000000) den)
  | _ => none

end Binary64

/-- The whole part, towards zero, within the signed 64-bit words. -/
def wholePart (x : Float) : Int :=
  if x < 0 then -((min (-x).toUInt64.toNat 9223372036854775808 : Nat) : Int)
  else (min x.toUInt64.toNat 9223372036854775807 : Nat)

instance : MediaTime Float where
  zero := 0.0
  one := 1.0
  decidableLE := inferInstance
  decidableLT := inferInstance
  negInf := -1.0 / 0.0
  posInf := 1.0 / 0.0
  ofNat := Float.ofNat
  ofNanos n := Float.ofNat (n / 1000000000) + Float.ofNat (n % 1000000000) / 1e9
  toNanos? x := (Binary64.ofFloat x).toNanos?
  truncate := wholePart
  floorNat x := x.toUInt64.toNat
  roundNat x := x.round.toUInt64.toNat

end MediaPipeline
