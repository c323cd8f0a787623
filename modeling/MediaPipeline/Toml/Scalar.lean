import MediaPipeline.Toml.Text
import MediaPipeline.Toml.Value

/-!
# Values without parts

Numbers, dates and times, truth values and texts.
-/

namespace MediaPipeline.Toml

/-! ## Numbers -/

/-- The digits at the front. Single underscores between digits are skipped. -/
def digitRun (isDigit : Char → Bool) (afterDigit : Bool) : List Char → List Char × List Char
  | [] => ([], [])
  | c :: rest =>
    if isDigit c then
      let (digits, rest) := digitRun isDigit true rest
      (c :: digits, rest)
    else if c = '_' ∧ afterDigit ∧ rest.head?.any isDigit then digitRun isDigit false rest
    else ([], c :: rest)

def digits? (isDigit : Char → Bool) (cs : List Char) : Option (List Char × List Char) :=
  match digitRun isDigit false cs with
  | ([], _) => none
  | run => some run

def sign : List Char → Bool × List Char
  | '-' :: rest => (true, rest)
  | '+' :: rest => (false, rest)
  | cs => (false, cs)

/-- Digits without a leading zero, unless there is no other. -/
def wholeDigits? (cs : List Char) : Option (List Char × List Char) :=
  match cs with
  | '0' :: rest => some (['0'], rest)
  | cs => digits? Char.isDigit cs

/-- The digits after a point, none if there is no point. -/
def places? (cs : List Char) : Option (List Char × List Char) :=
  match cs with
  | '.' :: rest => digits? Char.isDigit rest
  | cs => some ([], cs)

def power? (cs : List Char) : Option (Option Int × List Char) := do
  match cs with
  | c :: rest =>
    if c = 'e' ∨ c = 'E' then
      let (negative, rest) := sign rest
      let (digits, rest) ← digits? Char.isDigit rest
      let n : Int := ofDigits 10 digits
      return (some (if negative then -n else n), rest)
    else return (none, cs)
  | [] => return (none, [])

/-- A whole number has to be a signed 64-bit word. -/
def word? (n : Int) : Option Value :=
  if -9223372036854775808 ≤ n ∧ n ≤ 9223372036854775807 then some (.integer n) else none

/-- A number in decimal notation. One with a point or an exponent is a double, and a positive one
beyond all doubles is refused. -/
def decimal? (cs : List Char) : Option (Value × List Char) := do
  let (negative, rest) := sign cs
  let (whole, rest) ← wholeDigits? rest
  let (places, rest) ← places? rest
  let (power, rest) ← power? rest
  let digits := ofDigits 10 (whole ++ places)
  if places.isEmpty ∧ power.isNone then
    return (← word? (if negative then -digits else digits), rest)
  else
    let x := (Decimal.mk negative digits (power.getD 0 - places.length)).toFloat
    if x == 1.0 / 0.0 then none else some (.float x, rest)

def based? (cs : List Char) : Option (Value × List Char) := do
  let (base, isDigit, rest) ← match cs with
    | '0' :: 'x' :: rest => some (16, isHexDigit, rest)
    | '0' :: 'o' :: rest => some (8, fun c => '0' ≤ c && c ≤ '7', rest)
    | '0' :: 'b' :: rest => some (2, fun c => c == '0' || c == '1', rest)
    | _ => none
  let (digits, rest) ← digits? isDigit rest
  return (← word? (ofDigits base digits), rest)

/-- Infinity or the value that is not a number, with or without a sign. -/
def special? (cs : List Char) : Option (Value × List Char) :=
  let (negative, rest) := sign cs
  match rest with
  | 'i' :: 'n' :: 'f' :: rest => some (.float (if negative then -1.0 / 0.0 else 1.0 / 0.0), rest)
  | 'n' :: 'a' :: 'n' :: rest => some (.float (0.0 / 0.0), rest)
  | _ => none

/-! ## Dates and times -/

/-- A number of `n` decimal digits between `low` and `high`. -/
def bounded? (n low high : Nat) (cs : List Char) : Option (Nat × List Char) :=
  (fixedDigits? 10 n Char.isDigit cs).filter fun (value, _) => low ≤ value && value ≤ high

def daysIn (year month : Nat) : Nat :=
  if month = 2 then
    if year % 4 = 0 ∧ (year % 100 ≠ 0 ∨ year % 400 = 0) then 29 else 28
  else if [4, 6, 9, 11].contains month then 30
  else 31

def date? (cs : List Char) : Option (List Char) := do
  let (year, rest) ← bounded? 4 0 9999 cs
  let (month, rest) ← bounded? 2 1 12 (← expect? '-' rest)
  let (_, rest) ← bounded? 2 1 (daysIn year month) (← expect? '-' rest)
  return rest

def minutes? (cs : List Char) : Option (List Char) := do
  let (_, rest) ← bounded? 2 0 23 cs
  let (_, rest) ← bounded? 2 0 59 (← expect? ':' rest)
  return rest

/-- What follows the fraction of a second, if there is one. Its digits stand together. -/
def fraction (cs : List Char) : List Char :=
  match cs with
  | '.' :: rest => if rest.head?.any Char.isDigit then rest.dropWhile Char.isDigit else cs
  | _ => cs

/-- What follows a time of day, which has seconds and may have fractions of one. -/
def time? (cs : List Char) : Option (List Char) := do
  let (_, rest) ← bounded? 2 0 60 (← expect? ':' (← minutes? cs))
  return fraction rest

/-- What follows the offset from universal time. -/
def offset? : List Char → Option (List Char)
  | 'Z' :: rest => some rest
  | 'z' :: rest => some rest
  | '+' :: rest => minutes? rest
  | '-' :: rest => minutes? rest
  | _ => none

/-- What follows a date, a time, or both with a `T` or a blank between them. Only a time with a date
has an offset. -/
def moment? (cs : List Char) : Option (List Char) :=
  match date? cs with
  | none => time? cs
  | some rest =>
    let timed := match rest with
      | c :: rest => if c = 'T' ∨ c = 't' ∨ c = ' ' then time? rest else none
      | [] => none
    match timed with
    | none => some rest
    | some rest => some ((offset? rest).getD rest)

/-! ## All of them -/

def scalar? (cs : List Char) : Option (Value × List Char) :=
  match cs with
  | '"' :: _ => (Quote.double.quoted? cs).map fun (s, rest) => (.text s, rest)
  | '\x27' :: _ => (Quote.single.quoted? cs).map fun (s, rest) => (.text s, rest)
  | 't' :: 'r' :: 'u' :: 'e' :: rest => some (.boolean true, rest)
  | 'f' :: 'a' :: 'l' :: 's' :: 'e' :: rest => some (.boolean false, rest)
  | cs =>
    match moment? cs with
    | some rest => some (.moment, rest)
    | none => based? cs <|> special? cs <|> decimal? cs

end MediaPipeline.Toml
