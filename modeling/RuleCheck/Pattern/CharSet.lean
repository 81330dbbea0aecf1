import RuleCheck.Unicode.Blank
import RuleCheck.Unicode.Alphabetic
import RuleCheck.Unicode.Numeric
import RuleCheck.Unicode.WordMark
import RuleCheck.Unicode.RecentLetter
import RuleCheck.Unicode.CaseOrbit

/-!
# Character sets

A character set is a list of inclusive ranges of code points. Union and complement work on the
normal form, in which the ranges ascend and neither overlap nor touch; the other Boolean
operations are made of these two. The named sets cover all of Unicode, except those named for
ASCII. Names of groups may use letters that the sets for matching do not have yet.
-/

namespace RuleCheck

/-- A set of characters, as inclusive ranges of code points. -/
structure CharSet where
  ranges : List (Nat × Nat)

namespace CharSet

/-- Sets are equal if their ranges are; a set is recognised as itself without looking inside. -/
instance : DecidableEq CharSet := fun left right ↦
  withPtrEqDecEq left right fun _ ↦
    decidable_of_iff (left.ranges = right.ranges)
      ⟨fun ranges_eq ↦ by cases left; cases right; simpa using ranges_eq, congrArg ranges⟩

abbrev lastCodePoint : Nat := 0x10ffff

def containsCode (set : CharSet) (code : Nat) : Bool :=
  set.ranges.any fun range ↦ decide (range.1 ≤ code) && decide (code ≤ range.2)

def contains (set : CharSet) (character : Char) : Bool :=
  set.containsCode character.toNat

def empty : CharSet := ⟨[]⟩

def full : CharSet := ⟨[(0, lastCodePoint)]⟩

def ofRange (low high : Nat) : CharSet := ⟨[(low, high)]⟩

def singleton (character : Char) : CharSet := ofRange character.toNat character.toNat

/-- Joins ascending ranges that overlap or touch, the current one running from `low` to `high`. -/
def joinFrom (low high : Nat) : List (Nat × Nat) → List (Nat × Nat)
  | [] => [(low, high)]
  | (nextLow, nextHigh) :: rest =>
      if nextLow ≤ high + 1 then joinFrom low (max high nextHigh) rest
      else (low, high) :: joinFrom nextLow nextHigh rest

/-- Ascending ranges with gaps between them that cover the same characters. -/
def normalise (ranges : List (Nat × Nat)) : List (Nat × Nat) :=
  match ranges.mergeSort (fun left right ↦ decide (left.1 ≤ right.1)) with
  | [] => []
  | (low, high) :: rest => joinFrom low high rest

/-- What ascending ranges leave out from `next` on. -/
def gaps (next : Nat) : List (Nat × Nat) → List (Nat × Nat)
  | [] => if next ≤ lastCodePoint then [(next, lastCodePoint)] else []
  | (low, high) :: rest =>
      if next < low then (next, low - 1) :: gaps (high + 1) rest
      else gaps (max next (high + 1)) rest

def union (left right : CharSet) : CharSet :=
  ⟨normalise (left.ranges ++ right.ranges)⟩

def complement (set : CharSet) : CharSet :=
  ⟨gaps 0 (normalise set.ranges)⟩

def inter (left right : CharSet) : CharSet :=
  (left.complement.union right.complement).complement

def diff (left right : CharSet) : CharSet :=
  left.inter right.complement

def symmDiff (left right : CharSet) : CharSet :=
  (left.diff right).union (right.diff left)

/-- The set with every character's case variants added. -/
def withCaseVariants (set : CharSet) : CharSet :=
  let touched := Unicode.caseOrbits.filter fun orbit ↦ orbit.any set.containsCode
  set.union ⟨touched.flatten.map fun code ↦ (code, code)⟩

/-! ## Named sets -/

def blank : CharSet := ⟨Unicode.blankRanges⟩

def digit : CharSet := ⟨Unicode.decimalDigitRanges⟩

def word : CharSet :=
  ⟨normalise (Unicode.alphabeticRanges ++ Unicode.decimalDigitRanges ++ Unicode.wordMarkRanges)⟩

/-- The letters a name may begin with: the alphabetic characters and those encoded since. -/
def nameLetter : CharSet :=
  ⟨Unicode.alphabeticRanges ++ Unicode.recentLetterRanges⟩

/-- The letters and numbers a name may go on with. -/
def nameLetterOrNumber : CharSet :=
  ⟨nameLetter.ranges ++ Unicode.decimalDigitRanges ++ Unicode.otherNumberRanges
    ++ Unicode.recentDigitRanges⟩

def notLineFeed : CharSet := ⟨[(0, 9), (11, lastCodePoint)]⟩

/-- The set that a name stands for inside `[:` and `:]`. -/
def ofAsciiName? : String → Option CharSet
  | "alnum" => some ⟨[(0x30, 0x39), (0x41, 0x5a), (0x61, 0x7a)]⟩
  | "alpha" => some ⟨[(0x41, 0x5a), (0x61, 0x7a)]⟩
  | "ascii" => some ⟨[(0, 0x7f)]⟩
  | "blank" => some ⟨[(0x9, 0x9), (0x20, 0x20)]⟩
  | "cntrl" => some ⟨[(0, 0x1f), (0x7f, 0x7f)]⟩
  | "digit" => some ⟨[(0x30, 0x39)]⟩
  | "graph" => some ⟨[(0x21, 0x7e)]⟩
  | "lower" => some ⟨[(0x61, 0x7a)]⟩
  | "print" => some ⟨[(0x20, 0x7e)]⟩
  | "punct" => some ⟨[(0x21, 0x2f), (0x3a, 0x40), (0x5b, 0x60), (0x7b, 0x7e)]⟩
  | "space" => some ⟨[(0x9, 0xd), (0x20, 0x20)]⟩
  | "upper" => some ⟨[(0x41, 0x5a)]⟩
  | "word" => some ⟨[(0x30, 0x39), (0x41, 0x5a), (0x5f, 0x5f), (0x61, 0x7a)]⟩
  | "xdigit" => some ⟨[(0x30, 0x39), (0x41, 0x46), (0x61, 0x66)]⟩
  | _ => none

end CharSet

end RuleCheck
