import RuleCheck.Pattern.Expr

/-!
# Regular languages with anchors

An expression here has no flags and no spellings left, only what it matches. Matching proceeds
one character at a time: `partials` lists the expressions of which one must match the rest of the
text after a given character, and `nullable` says whether the empty text matches at a position,
which with anchors depends on the two characters around it.
-/

namespace RuleCheck.Pattern

/-- A regular expression with anchors. -/
inductive Regex where
  | empty
  | set (set : CharSet)
  | anchor (anchor : Anchor)
  | cat (first second : Regex)
  | alt (first second : Regex)
  | rep (inner : Regex) (least : Nat) (most : Option Nat)
deriving DecidableEq

def isWord : Option Char → Bool
  | none => false
  | some character => CharSet.word.contains character

def isLineEdge : Option Char → Bool
  | none => true
  | some character => character == '\n'

/-- Whether a condition holds between two characters, either of which may be missing. -/
def Anchor.holds (before after : Option Char) : Anchor → Bool
  | .textStart => before.isNone
  | .textEnd => after.isNone
  | .lineStart => isLineEdge before
  | .lineEnd => isLineEdge after
  | .wordBoundary => isWord before != isWord after
  | .notWordBoundary => isWord before == isWord after
  | .wordStart => !isWord before && isWord after
  | .wordEnd => isWord before && !isWord after
  | .wordStartHalf => !isWord before
  | .wordEndHalf => !isWord after

namespace Regex

/-- Whether the empty text matches between two characters. -/
def nullable (before after : Option Char) : Regex → Bool
  | .empty => true
  | .set _ => false
  | .anchor condition => condition.holds before after
  | .cat first second => first.nullable before after && second.nullable before after
  | .alt first second => first.nullable before after || second.nullable before after
  | .rep inner least _ => least == 0 || inner.nullable before after

def andThen : Regex → Regex → Regex
  | .empty, second => second
  | first, second => .cat first second

/-- The expressions of which one must match the rest of the text, once a character that stands
after `before` has been matched.

Turns of a repetition that match the empty text in front of the character count towards its least
number, so if the repeated expression is nullable there no further turn is required. -/
def partials (before : Option Char) (character : Char) : Regex → List Regex
  | .empty => []
  | .set members => if members.contains character then [.empty] else []
  | .anchor _ => []
  | .cat first second =>
      (first.partials before character).map (·.andThen second)
        ++ if first.nullable before (some character) then second.partials before character else []
  | .alt first second => first.partials before character ++ second.partials before character
  | .rep inner least most =>
      if most = some 0 then []
      else
        let required := if inner.nullable before (some character) then 0 else least - 1
        (inner.partials before character).map
          (·.andThen (.rep inner required (most.map (· - 1))))

/-! ## Search -/

/-- Whether one of several expressions matches a stretch of text from here, or `regex` matches a
stretch that begins here or later. -/
def searchFrom (regex : Regex) (live : List Regex) (before : Option Char) : List Char → Bool
  | [] => (live.insert regex).any (nullable before none)
  | character :: rest =>
      let live := live.insert regex
      live.any (nullable before (some character))
        || searchFrom regex (live.flatMap (partials before character)).eraseDups
          (some character) rest

def search (regex : Regex) (text : String) : Bool :=
  searchFrom regex [] none text.toList

end Regex

end RuleCheck.Pattern
