import RuleCheck.Pattern.ByteSequence
import RuleCheck.Pattern.Form
import RuleCheck.Pattern.WordTree

/-!
# The size of a pattern

Every form stands for an automaton over the bytes of UTF-8, one that reads text forward and one
that reads it backward. A repetition with bounds stands for as many copies of what it repeats, and
a set of characters for all its byte patterns, so a short pattern may have a large automaton. The
automata themselves are not built; only their sizes are computed, and a form fits if neither is
larger than `sizeLimit`.

Reading forward, byte patterns with a common end share it; reading backward, patterns with a common
first byte share that. A choice between literals is a tree of words, in which they share their
beginnings.
-/

namespace RuleCheck.Pattern

inductive Direction where
  | forward
  | backward
deriving DecidableEq

/-- The bytes a state takes, be it a byte, a condition, a choice or a joint. -/
abbrev stateSize : Nat := 32

/-- The bytes each range of a set adds to its state. -/
abbrev rangeSize : Nat := 8

/-- The bytes each branch adds to the state of a choice. -/
abbrev branchSize : Nat := 4

/-- The greatest number of bytes an automaton may take. -/
abbrev sizeLimit : Nat := 10 * Nat.pow 2 20

/-- The size of a state that leaves by one of several ranges, and of the joint they lead to. -/
def rangesSize (count : Nat) : Nat :=
  2 * stateSize + count * rangeSize

/-- Byte patterns grouped by their first range, which equal neighbours share; for each range, what
follows it. -/
def groupByFirst : List (List ByteRange) → List (ByteRange × List (List ByteRange))
  | [] => []
  | [] :: rest => groupByFirst rest
  | (first :: tail) :: rest =>
      match groupByFirst rest with
      | (range, tails) :: groups =>
          if first = range then (first, tail :: tails) :: groups
          else (first, [tail]) :: (range, tails) :: groups
      | [] => [(first, [tail])]

/-- The ends of byte patterns of at most the given length, each as the list of patterns that may
still follow. -/
def endings : Nat → List (List ByteRange) → List (List (List ByteRange))
  | 0, _ => []
  | length + 1, patterns =>
      patterns :: ((groupByFirst patterns).flatMap fun (_, tails) ↦
        if tails = [[]] then [] else endings length tails)

/-- The number of distinct beginnings of byte patterns of at most the given length. -/
def beginnings : Nat → List (List ByteRange) → Nat
  | 0, _ => 0
  | length + 1, patterns =>
      ((groupByFirst patterns).map fun (_, tails) ↦ 1 + beginnings length tails).foldr (· + ·) 0

/-- The size of a set. ASCII characters are the ranges of a single state. -/
def setSize (direction : Direction) (set : CharSet) : Nat :=
  if set.ranges.all fun range ↦ decide (range.2 < 0x80) then rangesSize set.ranges.length
  else
    let patterns := set.byteSequences
    match direction with
    | .forward =>
        let states := (endings 4 patterns).eraseDups
        let sizes := states.map fun state ↦ stateSize + (groupByFirst state).length * rangeSize
        stateSize + sizes.foldr (· + ·) 0
    | .backward =>
        2 * stateSize + patterns.length * branchSize + beginnings 4 patterns * stateSize

/-- The size of a state that leaves by the given number of bytes, as a branch of a choice. -/
def stepSize (count : Nat) : Nat :=
  match count with
  | 0 => 0
  | 1 => branchSize + stateSize
  | count => branchSize + stateSize + count * rangeSize

namespace WordTree

/-- The size of the branches at the root of a tree; `count` bytes have been met since the last end
of a word. -/
def rootSize (count : Nat) : WordTree → Nat
  | .nil => stepSize count
  | .stop rest => stepSize count + branchSize + rest.rootSize 0
  | .arrow _ _ rest => rest.rootSize (count + 1)

/-- The size of a tree below its root. -/
def innerSize : WordTree → Nat
  | .nil => 0
  | .stop rest => rest.innerSize
  | .arrow _ target rest =>
      (if target.hasArrow then stateSize + target.rootSize 0 + target.innerSize else 0)
        + rest.innerSize

/-- The size of a tree and of the joint that all its words lead to. -/
def size (tree : WordTree) : Nat :=
  2 * stateSize + tree.rootSize 0 + tree.innerSize

end WordTree

def bytesOf (direction : Direction) (characters : List Char) : List UInt8 :=
  let bytes := characters.flatMap String.utf8EncodeChar
  match direction with
  | .forward => bytes
  | .backward => bytes.reverse

/-! ## Forms -/

/-- The size of a repetition of a form whose own size is `size`; `consumes` says that every turn
takes at least one character. -/
def turnsSize (size : Nat) (consumes : Bool) (least : Nat) (most : Option Nat) : Nat :=
  let choice := stateSize + 2 * branchSize
  match least, most with
  | 0, some 1 => choice + size + stateSize
  | 0, none =>
      if consumes then choice + size else 2 * choice + size + stateSize
  | least, none => least * size + choice
  | least, some most =>
      if least = most then least * size
      else
        (if least = 0 then stateSize else least * size) + stateSize
          + (most - least) * (choice + size)

namespace Form

def consumes (form : Form) : Bool :=
  form.leastWidth?.any (0 < ·)

mutual

/-- The size of a form. Only the forward automaton marks where captured groups begin and end. -/
def size (direction : Direction) : Form → Nat
  | .empty => stateSize
  | .literal characters => (bytesOf direction characters).length * stateSize
  | .set members => setSize direction members
  | .anchor _ => stateSize
  | .rep inner least most => turnsSize (inner.size direction) inner.consumes least most
  | .captured inner =>
      match direction with
      | .forward => inner.size direction + 2 * stateSize
      | .backward => inner.size direction
  | .concat parts => sizes direction parts
  | .alternation branches =>
      match branches.mapM literal? with
      | some words => (WordTree.ofWords (words.map (bytesOf direction))).size
      | none => 2 * stateSize + branches.length * branchSize + sizes direction branches

def sizes (direction : Direction) : List Form → Nat
  | [] => 0
  | form :: rest => form.size direction + sizes direction rest

end

mutual

/-- Whether every match must touch the end of the text at which an automaton begins to read. -/
def isAnchored (direction : Direction) : Form → Bool
  | .anchor condition =>
      match direction with
      | .forward => condition == .textStart
      | .backward => condition == .textEnd
  | .rep inner least _ => least != 0 && inner.isAnchored direction
  | .captured inner => inner.isAnchored direction
  | .concat parts => isAnyAnchored direction parts
  | .alternation branches => areAnchored direction branches
  | _ => false

/-- Whether this holds of some part that nothing with a width is read before. -/
def isAnyAnchored (direction : Direction) : List Form → Bool
  | [] => false
  | part :: rest =>
      match direction with
      | .forward =>
          part.isAnchored direction || (part.isZeroWidth && isAnyAnchored direction rest)
      | .backward =>
          isAnyAnchored direction rest || (areZeroWidth rest && part.isAnchored direction)

def areAnchored (direction : Direction) : List Form → Bool
  | [] => true
  | branch :: rest => branch.isAnchored direction && areAnchored direction rest

end

/-- The size of the automaton that searches for a form. Unless the form is anchored it begins with
a loop over any bytes. It ends with an accepting state, and the forward automaton marks where the
match begins and ends. -/
def automatonSize (direction : Direction) (form : Form) : Nat :=
  let leadIn :=
    if form.isAnchored direction then stateSize else turnsSize (rangesSize 1) true 0 none
  let frame :=
    match direction with
    | .forward => 3 * stateSize
    | .backward => stateSize
  leadIn + form.size direction + frame

/-- Whether the automata of a form are small enough in both directions. -/
def fits (form : Form) : Bool :=
  [Direction.forward, .backward].all fun direction ↦
    decide (form.automatonSize direction ≤ sizeLimit)

end Form

end RuleCheck.Pattern
