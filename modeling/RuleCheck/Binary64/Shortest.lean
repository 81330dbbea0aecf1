import RuleCheck.Binary64.Basic

/-!
# Shortest decimal text

A finite number is written with the fewest decimal digits that still single it out: the decimal
must lie between the two midpoints to the neighbouring magnitudes, midpoints included when the
magnitude's position is even. Of two such decimals with equally many digits the nearer is taken,
and of two equally near ones the greater. The digits are always written positionally, without an
exponent and without a point after a whole number.

The search runs over the grids of one to seventeen digits in exact natural-number arithmetic.
-/

namespace RuleCheck.Binary64

def decimalLength (value : Nat) : Nat :=
  (Nat.toDigits 10 value).length

/-- A non-negative decimal number `digits * 10 ^ exponent`. -/
structure Decimal where
  digits : Nat
  exponent : Int

/-- The least `e` with `numerator / denominator < 10 ^ e`, for a positive quotient. -/
def decimalMagnitude (numerator denominator : Nat) : Int :=
  if denominator ≤ numerator then decimalLength (numerator / denominator)
  else
    let inverse := (denominator + numerator - 1) / numerator
    1 - (decimalLength (inverse - 1) : Int)

/-- A fraction `numerator / denominator` and the midpoints of the interval of values that round to
it, over the same denominator; a closed interval has its midpoints. -/
structure RoundingInterval where
  low : Nat
  value : Nat
  high : Nat
  denominator : Nat
  closed : Bool

def roundingInterval (position : Nat) : RoundingInterval where
  low := units (position - 1) + units position
  value := 2 * units position
  high := units position + units (position + 1)
  denominator := 2 * unitsPerOne
  closed := position % 2 == 0

/-- Whether `candidate * scaleDown / scaleUp` lies in the interval. -/
def RoundingInterval.admits (interval : RoundingInterval) (scaleUp scaleDown candidate : Nat) :
    Bool :=
  let point := candidate * scaleDown * interval.denominator
  let low := interval.low * scaleUp
  let high := interval.high * scaleUp
  if interval.closed then decide (low ≤ point) && decide (point ≤ high)
  else decide (low < point) && decide (point < high)

/-- The best decimal of the interval on the grid of multiples of `10 ^ exponent`, if one of the
value's two neighbours on that grid lies in the interval. -/
def RoundingInterval.onGrid? (interval : RoundingInterval) (exponent : Int) : Option Decimal :=
  let scaleUp := Nat.pow 10 (-exponent).toNat
  let scaleDown := Nat.pow 10 exponent.toNat
  let numerator := interval.value * scaleUp
  let denominator := interval.denominator * scaleDown
  let below := numerator / denominator
  match interval.admits scaleUp scaleDown below, interval.admits scaleUp scaleDown (below + 1) with
  | true, true =>
      if 2 * (numerator % denominator) < denominator then some ⟨below, exponent⟩
      else some ⟨below + 1, exponent⟩
  | true, false => some ⟨below, exponent⟩
  | false, true => some ⟨below + 1, exponent⟩
  | false, false => none

/-- The shortest decimal that singles out the magnitude at a positive position. -/
def shortest (position : Nat) : Decimal :=
  let interval := roundingInterval position
  let magnitude := decimalMagnitude interval.value interval.denominator
  let grids := (List.range 17).map fun count ↦ magnitude - (count + 1 : Nat)
  (grids.findSome? interval.onGrid?).getD ⟨0, 0⟩

def dropTrailingZeros (digits : List Char) : List Char :=
  (digits.reverse.dropWhile (· == '0')).reverse

def Decimal.positional (decimal : Decimal) : String :=
  let digits := Nat.toDigits 10 decimal.digits
  if 0 ≤ decimal.exponent then
    String.ofList (digits ++ List.replicate decimal.exponent.toNat '0')
  else
    let places := (-decimal.exponent).toNat
    let padded := List.replicate (places + 1 - digits.length) '0' ++ digits
    let whole := padded.take (padded.length - places)
    match dropTrailingZeros (padded.drop (padded.length - places)) with
    | [] => String.ofList whole
    | fraction => String.ofList (whole ++ '.' :: fraction)

/-- The text of a number: `NaN`, `Infinity`, or the shortest decimal, each with a minus sign in
front of a negative one (negative zero included). -/
def text : Binary64 → String
  | .nan => "NaN"
  | .infinity negative => if negative then "-Infinity" else "Infinity"
  | .finite negative magnitude =>
      let body := if magnitude.val = 0 then "0" else (shortest magnitude).positional
      if negative then "-" ++ body else body

end RuleCheck.Binary64
