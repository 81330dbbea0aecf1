import RuleCheck.Pattern.Expr

/-!
# Plain forms

What is left of a written pattern once its flags are resolved and its parts are joined as far as
possible. Characters side by side are one literal, a group that is not captured disappears,
branches that are all single characters or all sets are one set, and parts with which all branches
begin stand once before them. The functions `ofSet`, `ofTurns`, `ofParts` and `ofBranches` join;
they change the form of a pattern, not what it matches.
-/

namespace RuleCheck.Pattern

/-- A pattern without flags and without needless structure, in which a literal has at least one
character. -/
inductive Form where
  | empty
  | literal (characters : List Char)
  | set (set : CharSet)
  | anchor (anchor : Anchor)
  | rep (inner : Form) (least : Nat) (most : Option Nat)
  | captured (inner : Form)
  | concat (parts : List Form)
  | alternation (branches : List Form)

namespace Form

mutual

/-- Whether only empty stretches of text can match, whatever stands around them. -/
def isZeroWidth : Form → Bool
  | .empty => true
  | .literal characters => characters.isEmpty
  | .set _ => false
  | .anchor _ => true
  | .rep inner _ most => inner.isZeroWidth && most.isSome
  | .captured inner => inner.isZeroWidth
  | .concat parts => areZeroWidth parts
  | .alternation branches => areZeroWidth branches

def areZeroWidth : List Form → Bool
  | [] => true
  | form :: rest => form.isZeroWidth && areZeroWidth rest

end

mutual

/-- The least number of characters of a match; none if some part can never match. -/
def leastWidth? : Form → Option Nat
  | .empty => some 0
  | .literal characters => some characters.length
  | .set members => if members.ranges.isEmpty then none else some 1
  | .anchor _ => some 0
  | .rep inner least _ => inner.leastWidth?.map (· * least)
  | .captured inner => inner.leastWidth?
  | .concat parts => (leastWidths? parts).map List.sum
  | .alternation branches => (leastWidths? branches).bind List.min?

def leastWidths? : List Form → Option (List Nat)
  | [] => some []
  | form :: rest => do return (← form.leastWidth?) :: (← leastWidths? rest)

end

mutual

/-- Whether two forms are written alike. Captured groups are told apart by their places, so no two
of them are the same. -/
def same : Form → Form → Bool
  | .empty, .empty => true
  | .literal left, .literal right => left == right
  | .set left, .set right => left == right
  | .anchor left, .anchor right => left == right
  | .rep left least most, .rep right least' most' =>
      least == least' && most == most' && left.same right
  | .concat left, .concat right => sameLists left right
  | .alternation left, .alternation right => sameLists left right
  | _, _ => false

def sameLists : List Form → List Form → Bool
  | [], [] => true
  | left :: lefts, right :: rights => left.same right && sameLists lefts rights
  | _, _ => false

end

/-- The forms with which both lists begin. -/
def sharedParts : List Form → List Form → List Form
  | left :: lefts, right :: rights =>
      if left.same right then left :: sharedParts lefts rights else []
  | _, _ => []

/-! ## Joining -/

/-- One character of a set; the only character of a set is a literal. -/
def ofSet (members : CharSet) : Form :=
  match members.ranges with
  | [(low, high)] =>
      if low = high ∧ low.isValidChar then .literal [Char.ofNat low] else .set members
  | _ => .set members

/-- Repeats a form. Further turns of a form without width add nothing, no turn at all is the empty
text, and one turn is the form itself. -/
def ofTurns (inner : Form) (least : Nat) (most : Option Nat) : Form :=
  let (least, most) :=
    if inner.isZeroWidth then (min least 1, some (min (most.getD 1) 1)) else (least, most)
  match least, most with
  | 0, some 0 => .empty
  | 1, some 1 => inner
  | _, _ => .rep inner least most

/-- The parts that a form contributes to a concatenation. -/
def toParts : Form → List Form
  | .empty => []
  | .concat parts => parts
  | form => [form]

/-- Puts a part before others; a literal joins a literal. -/
def consPart : Form → List Form → List Form
  | .literal left, .literal right :: rest => .literal (left ++ right) :: rest
  | part, rest => part :: rest

def ofParts (forms : List Form) : Form :=
  match (forms.flatMap toParts).foldr consPart [] with
  | [] => .empty
  | [part] => part
  | parts => .concat parts

def toBranches : Form → List Form
  | .alternation branches => branches
  | form => [form]

def literal? : Form → Option (List Char)
  | .literal characters => some characters
  | _ => none

def parts? : Form → Option (List Form)
  | .concat parts => some parts
  | _ => none

def singleRange? : Form → Option (Nat × Nat)
  | .literal [character] => some (character.toNat, character.toNat)
  | _ => none

def set? : Form → Option CharSet
  | .set members => some members
  | _ => none

/-- The one set that branches amount to if they are all single characters or all sets. -/
def setOfBranches? (branches : List Form) : Option CharSet :=
  match branches.mapM singleRange? with
  | some ranges => some ⟨CharSet.normalise ranges⟩
  | none => (branches.mapM set?).map fun sets ↦ sets.foldl CharSet.union .empty

/-- One of several branches, none of which is an alternation, and which begin differently. -/
def ofDistinctBranches (branches : List Form) : Form :=
  match branches with
  | [] => .set .empty
  | [branch] => branch
  | branches =>
      match setOfBranches? branches with
      | some members => ofSet members
      | none => .alternation branches

def ofBranches (forms : List Form) : Form :=
  let branches := forms.flatMap toBranches
  match branches.mapM parts? with
  | some (first :: second :: others) =>
      match (second :: others).foldl sharedParts first with
      | [] => ofDistinctBranches branches
      | shared =>
          let tails := (first :: second :: others).map fun parts ↦
            ofParts (parts.drop shared.length)
          ofParts (shared ++ [ofDistinctBranches (tails.flatMap toBranches)])
  | _ => ofDistinctBranches branches

end Form

end RuleCheck.Pattern
