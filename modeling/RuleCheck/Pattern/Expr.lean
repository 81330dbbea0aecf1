import RuleCheck.Pattern.CharSet

/-!
# Pattern expressions

The tree of a written pattern, close to its text: flags are still in their places, and a bracket
still shows its ranges, nested brackets and set operators. What a tree matches is said in
`RuleCheck.Pattern.Meaning`.
-/

namespace RuleCheck.Pattern

/-- A condition on the characters around a position. Lines also begin after a line feed and end
before one, and the half boundaries look to one side only. -/
inductive Anchor where
  | textStart
  | textEnd
  | lineStart
  | lineEnd
  | wordBoundary
  | notWordBoundary
  | wordStart
  | wordEnd
  | wordStartHalf
  | wordEndHalf
deriving DecidableEq

/-- The letters that change how the rest of a group is read. To swap greed changes no language. -/
inductive Flag where
  | caseless
  | multiLine
  | dotAll
  | swapGreed
deriving DecidableEq

/-- Flags switched on (`true`) or off, in the order written. -/
abbrev FlagChange := List (Flag × Bool)

/-- The operators between the parts of a bracket, written with two ampersands, two dashes and two
tildes. -/
inductive SetOperator where
  | intersection
  | difference
  | symmetricDifference
deriving DecidableEq

/-- The contents of a bracket. A fixed set stands for itself whatever the flags, and a named one is
given inside `[:` and `:]`. -/
inductive SetExpr where
  | empty
  | range (low high : Nat)
  | fixed (set : CharSet)
  | named (negated : Bool) (set : CharSet)
  | bracket (negated : Bool) (inner : SetExpr)
  | union (items : List SetExpr)
  | combined (operator : SetOperator) (left right : SetExpr)

/-- A written pattern. A change of flags holds up to the end of the enclosing group, and a fixed set
stands for itself whatever the flags. The dot, the caret and the dollar are still as they are
written. -/
inductive Expr where
  | empty
  | flags (change : FlagChange)
  | char (character : Char)
  | dot
  | anchor (anchor : Anchor)
  | caret
  | dollar
  | fixed (set : CharSet)
  | bracket (set : SetExpr)
  | repeated (inner : Expr) (least : Nat) (most : Option Nat)
  | group (captured : Bool) (change : FlagChange) (inner : Expr)
  | alternation (branches : List Expr)
  | concat (parts : List Expr)

/-- The items of a bracket, collected in reverse. -/
def SetExpr.ofReversed : List SetExpr → SetExpr
  | [] => .empty
  | [item] => item
  | items => .union items.reverse

/-- The parts of a branch, collected in reverse. -/
def Expr.ofReversedParts : List Expr → Expr
  | [] => .empty
  | [part] => part
  | parts => .concat parts.reverse

/-- The branches before the last one, collected in reverse, and the last one. -/
def Expr.ofReversedBranches (branches : List Expr) (last : Expr) : Expr :=
  match branches with
  | [] => last
  | branches => .alternation (last :: branches).reverse

/-! ## Height -/

mutual

/-- How deeply the brackets, unions and operators of a set are nested. -/
def SetExpr.height : SetExpr → Nat
  | .empty => 0
  | .range _ _ => 0
  | .fixed _ => 0
  | .named _ _ => 0
  | .bracket _ inner => inner.height + 1
  | .union items => SetExpr.heights items + 1
  | .combined _ left right => max left.height right.height + 1

def SetExpr.heights : List SetExpr → Nat
  | [] => 0
  | item :: rest => max item.height (SetExpr.heights rest)

end

mutual

/-- How deeply the composite parts of a pattern are nested. -/
def Expr.height : Expr → Nat
  | .bracket set => set.height
  | .repeated inner _ _ => inner.height + 1
  | .group _ _ inner => inner.height + 1
  | .alternation branches => Expr.heights branches + 1
  | .concat parts => Expr.heights parts + 1
  | _ => 0

def Expr.heights : List Expr → Nat
  | [] => 0
  | part :: rest => max part.height (Expr.heights rest)

end

abbrev heightLimit : Nat := 250

end RuleCheck.Pattern
