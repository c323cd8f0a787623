/-!
# Binary64 numbers

The exact value of a finite double is `± mantissa · 2 ^ exponent`. The fields are read off its bit
pattern, so everything computed from them is exact integer arithmetic.
-/

namespace MediaPipeline

/-- The number `± mantissa · 2 ^ exponent`, or one of the values that are not numbers. -/
inductive Binary64 where
  | finite (negative : Bool) (mantissa : Nat) (exponent : Int)
  | infinite (negative : Bool)
  | nan
  deriving DecidableEq, Repr

namespace Binary64

/-- One more than the greatest stored mantissa. -/
def mantissaBits : Nat := 4503599627370496

/-- The bit that is set in negative numbers. -/
def signBit : Nat := 9223372036854775808

/-- Subnormal numbers share the least exponent; all others have one leading bit that is not
stored. -/
def ofBits (bits : Nat) : Binary64 :=
  let negative := bits / signBit % 2 == 1
  let exponent := bits / mantissaBits % 2048
  let fraction := bits % mantissaBits
  if exponent = 2047 then
    if fraction = 0 then infinite negative else nan
  else if exponent = 0 then finite negative fraction (-1074)
  else finite negative (mantissaBits + fraction) ((exponent : Int) - 1075)

def ofFloat (x : Float) : Binary64 :=
  ofBits x.toBits.toNat

/-- Numerator and denominator of `mantissa · 2 ^ exponent`. -/
def fraction (mantissa : Nat) (exponent : Int) : Nat × Nat :=
  (mantissa * Nat.pow 2 exponent.toNat, Nat.pow 2 (-exponent).toNat)

end Binary64

/-! ## Rounding a quotient -/

/-- The whole number nearest to `num / den`; a half goes to the even neighbour. -/
def roundHalfEven (num den : Nat) : Nat :=
  let q := num / den
  let twice := 2 * (num % den)
  if den < twice then q + 1
  else if twice = den then q + q % 2
  else q

theorem roundHalfEven_mul (q : Nat) {den : Nat} (h : 0 < den) :
    roundHalfEven (q * den) den = q := by
  have h1 : q * den / den = q := Nat.mul_div_cancel q h
  have h2 : q * den % den = 0 := Nat.mul_mod_left q den
  simp only [roundHalfEven, h1, h2]
  rw [if_neg (by omega), if_neg (by omega)]

end MediaPipeline
