/-!
# Decimal digits

Reading and writing plain runs of ASCII decimal digits.
-/

namespace RuleCheck.Digits

/-- A natural number in decimal, with zeros in front up to a given width. -/
def zeroPadded (width value : Nat) : List Char :=
  let digits := Nat.toDigits 10 value
  List.replicate (width - digits.length) '0' ++ digits

def digit? (character : Char) : Option Nat :=
  if '0' ≤ character ∧ character ≤ '9' then some (character.toNat - '0'.toNat) else none

/-- The value of an ASCII hexadecimal digit of either case. -/
def hexDigit? (character : Char) : Option Nat :=
  if '0' ≤ character ∧ character ≤ '9' then some (character.toNat - '0'.toNat)
  else if 'a' ≤ character ∧ character ≤ 'f' then some (character.toNat - 'a'.toNat + 10)
  else if 'A' ≤ character ∧ character ≤ 'F' then some (character.toNat - 'A'.toNat + 10)
  else none

/-- The number that a text of at least one ASCII digit, and nothing else, denotes. -/
def number? (characters : List Char) : Option Nat :=
  match characters with
  | [] => none
  | _ => characters.foldlM (fun total character ↦ (digit? character).map (10 * total + ·)) 0

end RuleCheck.Digits
