/-!
# Binary floating-point numbers

A double-precision number is held by meaning: not a number, an infinity, or a sign with one of
the `2047 * 2 ^ 52` finite magnitudes. Magnitudes are numbered from zero upwards in order of
size, so the numbering is also the low 63 bits of the interchange format. Every finite number is
a whole count of `2 ^ (-1074)`; `units` gives that count, and comparison, rounding and the exact
arithmetic below are all done on it in natural numbers.

Nothing here depends on the machine's own floating-point operations.
-/

namespace RuleCheck

abbrev finiteMagnitudes : Nat := 2047 * Nat.pow 2 52

theorem finiteMagnitudes_pos : 0 < finiteMagnitudes := by decide

/-- A double-precision number, a finite one by its sign and the position of its magnitude. The bits
of the various "not a number" patterns are not kept. -/
inductive Binary64 where
  | nan
  | infinity (negative : Bool)
  | finite (negative : Bool) (magnitude : Fin finiteMagnitudes)
deriving DecidableEq

namespace Binary64

/-- How many units of `2 ^ (-1074)` the magnitude at a position is worth. The first `2 ^ 52`
positions are one unit apart; after that the distance doubles every `2 ^ 52` positions. -/
def units (position : Nat) : Nat :=
  if position < Nat.pow 2 52 then position
  else (Nat.pow 2 52 + position % Nat.pow 2 52) * Nat.pow 2 (position / Nat.pow 2 52 - 1)

abbrev unitsPerOne : Nat := Nat.pow 2 1074

def signed (negative : Bool) (count : Nat) : Int :=
  if negative then -(count : Int) else count

/-- The exact value of a finite number in units, signed. -/
def signedUnits? : Binary64 → Option Int
  | .nan => none
  | .infinity _ => none
  | .finite negative magnitude => some (signed negative (units magnitude))

def zero : Binary64 := .finite false 0

def negativeZero : Binary64 := .finite true 0

def isNaN : Binary64 → Bool
  | .nan => true
  | _ => false

def isInfinite : Binary64 → Bool
  | .infinity _ => true
  | _ => false

def isIntegral : Binary64 → Bool
  | .finite _ magnitude => units magnitude % unitsPerOne == 0
  | _ => false

def negate : Binary64 → Binary64
  | .nan => .nan
  | .infinity negative => .infinity (!negative)
  | .finite negative magnitude => .finite (!negative) magnitude

def ofBits (bits : UInt64) : Binary64 :=
  let negative := Nat.pow 2 63 ≤ bits.toNat
  let magnitude := bits.toNat % Nat.pow 2 63
  if h : magnitude < finiteMagnitudes then .finite negative ⟨magnitude, h⟩
  else if magnitude = finiteMagnitudes then .infinity negative
  else .nan

/-- The 64 bits of a number; "not a number" is written as the positive quiet pattern. -/
def toBits : Binary64 → UInt64
  | .nan => 0x7ff8000000000000
  | .infinity negative => .ofNat ((if negative then Nat.pow 2 63 else 0) + finiteMagnitudes)
  | .finite negative magnitude => .ofNat ((if negative then Nat.pow 2 63 else 0) + magnitude)

/-- The order of the numeric values; nothing is ordered against "not a number", and the two zeros
are equal. -/
def compare? : Binary64 → Binary64 → Option Ordering
  | .nan, _ => none
  | _, .nan => none
  | .infinity left, .infinity right => some (Ord.compare right left)
  | .infinity negative, .finite _ _ => some (if negative then .lt else .gt)
  | .finite _ _, .infinity negative => some (if negative then .gt else .lt)
  | .finite leftSign left, .finite rightSign right =>
      some (Ord.compare (signed leftSign (units left)) (signed rightSign (units right)))

/-- Numeric equality: "not a number" equals nothing, and the two zeros are equal. -/
def numEq (left right : Binary64) : Bool :=
  left.compare? right == some .eq

def isPositive (number : Binary64) : Bool :=
  number.compare? zero == some .gt

/-! ## Rounding -/

/-- The nearest whole number to `numerator / denominator`, an exact half going to the even
neighbour. -/
def roundHalfEven (numerator denominator : Nat) : Nat :=
  let below := numerator / denominator
  let twice := 2 * (numerator % denominator)
  if twice < denominator then below
  else if denominator < twice then below + 1
  else if below % 2 = 0 then below else below + 1

/-- The number nearest to `numerator / denominator`, ties going to the even magnitude, and
magnitudes past the largest finite one becoming infinite.

With `k` the number of bits that do not fit, the quotient is rounded to a whole number of
`2 ^ k` units; adding `k * 2 ^ 52` then gives the position, also when rounding carries into the
next binade. -/
def ofRatio (negative : Bool) (numerator denominator : Nat) : Binary64 :=
  let scaled := numerator * unitsPerOne
  let spare := Nat.log2 (scaled / denominator) - 52
  let position := spare * Nat.pow 2 52 + roundHalfEven scaled (denominator * Nat.pow 2 spare)
  if h : position < finiteMagnitudes then .finite negative ⟨position, h⟩
  else .infinity negative

def ofNat (value : Nat) : Binary64 :=
  ofRatio false value 1

/-- The number nearest to an integer; zero is positive zero. -/
def ofInt (value : Int) : Binary64 :=
  ofRatio (decide (value < 0)) value.natAbs 1

/-- The product of two finite magnitudes, rounded to nearest. -/
def mulMagnitudes (left right : Fin finiteMagnitudes) : Binary64 :=
  ofRatio false (units left * units right) (unitsPerOne * unitsPerOne)

/-- The quotient of two finite magnitudes, rounded to nearest. -/
def divMagnitudes (left right : Fin finiteMagnitudes) : Binary64 :=
  ofRatio false (units left) (units right)

end Binary64

end RuleCheck
