import RuleCheck.Json.Basic
import RuleCheck.Text.Digits

/-!
# Reading JSON numbers

A number is read as a significand of at most 64 bits and a power of ten. Integer digits that no
longer fit count towards the power of ten; fraction digits from the first that does not fit are
dropped. A number without fraction and exponent whose digits fit is whole, unless it is a negative
zero or below `-2 ^ 63`. Any other number is the significand, rounded to double precision, times or
divided by a rounded power of ten; it must not come out infinite.
-/

namespace RuleCheck.JsonNumber

abbrev maxSignificand : Nat := Nat.pow 2 64 - 1

/-- The greatest power of ten that is written out. -/
abbrev maxExponent : Nat := Nat.pow 2 31 - 1

/-- Extends a significand by digits for as long as it fits, and counts them. A digit at the front of
what is left is one that did not fit. -/
def extend (significand count : Nat) : List Char → Nat × Nat × List Char
  | [] => (significand, count, [])
  | character :: rest =>
      match Digits.digit? character with
      | none => (significand, count, character :: rest)
      | some digit =>
          if 10 * significand + digit ≤ maxSignificand then
            extend (10 * significand + digit) (count + 1) rest
          else (significand, count, character :: rest)

def isDigit (character : Char) : Bool :=
  (Digits.digit? character).isSome

def startsWithDigit (characters : List Char) : Bool :=
  characters.head?.any isDigit

/-- A power of ten in double precision, and the position of its magnitude. -/
def powerOfTen (exponent : Nat) : Fin finiteMagnitudes :=
  match Binary64.ofNat (Nat.pow 10 exponent) with
  | .finite _ magnitude => magnitude
  | _ => ⟨0, finiteMagnitudes_pos⟩

/-- Scales a magnitude by a power of ten, in steps of at most 308 places; no result if it comes out
infinite. Each step down divides by `10 ^ 308`, so after three steps a significand has vanished. -/
def scale : Nat → Fin finiteMagnitudes → Int → Option (Fin finiteMagnitudes)
  | 0, _, _ => some 0
  | fuel + 1, magnitude, exponent =>
      if exponent.natAbs ≤ 308 then
        let power := powerOfTen exponent.natAbs
        let scaled :=
          if 0 ≤ exponent then Binary64.mulMagnitudes magnitude power
          else Binary64.divMagnitudes magnitude power
        match scaled with
        | .finite _ result => some result
        | _ => none
      else if magnitude = 0 then some 0
      else if 0 ≤ exponent then none
      else
        match Binary64.divMagnitudes magnitude (powerOfTen 308) with
        | .finite _ result => scale fuel result (exponent + 308)
        | _ => none

/-- The number with a sign and a power of ten, from the number nearest to its significand. -/
def ofRounded (negative : Bool) (exponent : Int) : Binary64 → Except JsonFault JsonNumber
  | .finite _ magnitude =>
      match scale 4 magnitude exponent with
      | some result => .ok (.float (.finite negative result))
      | none => .error .malformed
  | _ => .error .malformed

def ofParts (negative : Bool) (significand : Nat) (exponent : Int) :
    Except JsonFault JsonNumber :=
  ofRounded negative exponent (Binary64.ofNat significand)

def ofDigits (negative : Bool) (significand : Nat) : JsonNumber :=
  if negative then
    if significand = 0 then .float .negativeZero
    else if significand ≤ Nat.pow 2 63 then .whole (-(significand : Int))
    else .float (Binary64.ofNat significand).negate
  else .whole significand

/-- Reads digits of an exponent that was begun; `none` if it grows past every limit. -/
def readExponentDigits (exponent : Nat) : List Char → Option Nat × List Char
  | [] => (some exponent, [])
  | character :: rest =>
      match Digits.digit? character with
      | none => (some exponent, character :: rest)
      | some digit =>
          if 10 * exponent + digit ≤ maxExponent then
            readExponentDigits (10 * exponent + digit) rest
          else (none, rest.dropWhile isDigit)

/-- Reads what follows the letter of an exponent, after a significand and the power of ten it has so
far. An exponent past every limit leaves a zero, unless it would make the number infinite. -/
def readExponent (negative : Bool) (significand : Nat) (places : Int) (characters : List Char) :
    Except JsonFault (JsonNumber × List Char) :=
  let down := characters.head? == some '-'
  let characters :=
    if down || characters.head? == some '+' then characters.tail else characters
  match characters with
  | [] => .error .endOfText
  | character :: rest =>
      match Digits.digit? character with
      | none => .error .malformed
      | some digit =>
          match readExponentDigits digit rest with
          | (some exponent, after) => do
              let exponent := if down then places - exponent else places + exponent
              return (← ofParts negative significand exponent, after)
          | (none, after) =>
              if significand ≠ 0 && !down then .error .malformed
              else .ok (.float (if negative then .negativeZero else .zero), after)

/-- Reads an exponent if one follows, and ends the number. -/
def readEnd (negative : Bool) (significand : Nat) (places : Int) :
    List Char → Except JsonFault (JsonNumber × List Char)
  | 'e' :: rest => readExponent negative significand places rest
  | 'E' :: rest => readExponent negative significand places rest
  | rest => do return (← ofParts negative significand places, rest)

/-- Reads what follows the decimal point: at least one digit, and an exponent. -/
def readFraction (negative : Bool) (significand : Nat) (places : Int) (characters : List Char) :
    Except JsonFault (JsonNumber × List Char) :=
  match extend significand 0 characters with
  | (significand, count, rest) =>
      if count = 0 && !startsWithDigit rest then
        .error (if rest.isEmpty then .endOfText else .malformed)
      else readEnd negative significand (places - count) (rest.dropWhile isDigit)

/-- Reads an unsigned number; the sign in front of it is given. -/
def readUnsigned (negative : Bool) (characters : List Char) :
    Except JsonFault (JsonNumber × List Char) :=
  match characters with
  | [] => .error .endOfText
  | first :: afterFirst =>
      if !isDigit first then .error .malformed
      else if first = '0' && startsWithDigit afterFirst then .error .malformed
      else
        match extend 0 0 characters with
        | (significand, _, rest) =>
            let unread := rest.takeWhile isDigit
            match rest.dropWhile isDigit with
            | '.' :: after => readFraction negative significand unread.length after
            | after =>
                if unread.isEmpty && after.head? ≠ some 'e' && after.head? ≠ some 'E' then
                  .ok (ofDigits negative significand, after)
                else readEnd negative significand unread.length after

def read : List Char → Except JsonFault (JsonNumber × List Char)
  | '-' :: rest => readUnsigned true rest
  | rest => readUnsigned false rest

end RuleCheck.JsonNumber
