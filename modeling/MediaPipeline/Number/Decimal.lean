import MediaPipeline.Number.Binary64

/-!
# Decimal numbers

A decimal number is read as the nearest double, and a double is written as the shortest decimal
number that is read as it. Both are exact arithmetic on whole numbers.
-/

namespace MediaPipeline

/-- The number `± digits · 10 ^ exponent`. -/
structure Decimal where
  negative : Bool
  digits : Nat
  exponent : Int
  deriving DecidableEq, Repr

/-! ## Reading -/

namespace Binary64

def infinityBits : Nat := 2047 * mantissaBits

/-- The bit pattern of the double nearest to `num / den`; half way between two it is that of the
even one. The patterns of the doubles of one exponent follow those of the one before, so a mantissa
that is rounded up to the next power of two gives the right pattern. -/
def nearestBits (num den : Nat) : Nat :=
  if num = 0 then 0
  else
    let estimate : Int := num.log2 - den.log2
    let leading := if den * Nat.pow 2 estimate.toNat ≤ num * Nat.pow 2 (-estimate).toNat
      then estimate
      else estimate - 1
    let exponent := max (leading - 52) (-1074)
    let mantissa :=
      roundHalfEven (num * Nat.pow 2 (-exponent).toNat) (den * Nat.pow 2 exponent.toNat)
    min ((exponent + 1074).toNat * mantissaBits + mantissa) infinityBits

end Binary64

namespace Decimal

/-- How many digits `n` has in decimal notation, none for zero. -/
def length (n : Nat) : Nat := if n = 0 then 0 else (Nat.toDigits 10 n).length

/-- The bit pattern of the nearest double, without the sign. Numbers that are far beyond every
double are not computed. -/
def magnitudeBits (d : Decimal) : Nat :=
  let scale := d.exponent + length d.digits
  if d.digits = 0 ∨ scale < -400 then 0
  else if 400 < scale then Binary64.infinityBits
  else
    Binary64.nearestBits (d.digits * Nat.pow 10 d.exponent.toNat) (Nat.pow 10 (-d.exponent).toNat)

def toBits (d : Decimal) : Nat := (if d.negative then Binary64.signBit else 0) + d.magnitudeBits

def toFloat (d : Decimal) : Float := Float.ofBits (UInt64.ofNat d.toBits)

end Decimal

/-! ## Writing -/

namespace Decimal

/-- The two multiples of `10 ^ exponent` around `num / den`, the nearer first; of two that are as
near the greater. -/
def neighbours (negative : Bool) (num den : Nat) (exponent : Int) : List Decimal :=
  let num := num * Nat.pow 10 (-exponent).toNat
  let den := den * Nat.pow 10 exponent.toNat
  let below : Decimal := ⟨negative, num / den, exponent⟩
  let above : Decimal := ⟨negative, num / den + 1, exponent⟩
  if 2 * (num % den) < den then [below, above] else [above, below]

/-- The decimal number of fewest digits that is read as the double of the given bit pattern, and of
those the nearest. The grids of decimal numbers get finer by a factor of ten; seventeen digits are
always enough. -/
def shortest? (bits : Nat) : Option Decimal :=
  match Binary64.ofBits bits with
  | .finite negative mantissa exponent =>
    if mantissa = 0 then some ⟨negative, 0, 0⟩
    else
      let (num, den) := Binary64.fraction mantissa exponent
      let top : Int := length num - length den + 1
      (List.range 20).findSome? fun (finer : Nat) =>
        (neighbours negative num den (top - finer)).find? (·.toBits == bits)
  | _ => none

theorem toBits_of_mem_shortest? {bits : Nat} {negative : Bool} {mantissa : Nat} {exponent : Int}
    (hb : Binary64.ofBits bits = .finite negative mantissa exponent) (hm : mantissa ≠ 0)
    {d : Decimal} (h : shortest? bits = some d) : d.toBits = bits := by
  simp only [shortest?, hb, if_neg hm] at h
  obtain ⟨finer, -, hf⟩ := List.exists_of_findSome?_eq_some h
  simpa using List.find?_some hf

/-- All digits written out, never with an exponent. -/
def text (d : Decimal) : String :=
  let digits := Nat.toDigits 10 d.digits
  let places := (-d.exponent).toNat
  let padded := List.replicate (places + 1 - digits.length) '0' ++ digits
  let whole := padded.take (padded.length - places) ++ List.replicate d.exponent.toNat '0'
  let fraction := padded.drop (padded.length - places)
  String.ofList ((if d.negative then ['-'] else []) ++ whole ++
    (if fraction.isEmpty then [] else '.' :: fraction))

end Decimal

namespace Binary64

def text (bits : Nat) : String :=
  match ofBits bits with
  | infinite negative => if negative then "-inf" else "inf"
  | nan => "NaN"
  | finite _ _ _ => ((Decimal.shortest? bits).map Decimal.text).getD ""

end Binary64

end MediaPipeline
