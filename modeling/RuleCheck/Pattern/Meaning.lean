import RuleCheck.Pattern.Form
import RuleCheck.Pattern.Language

/-!
# What a written pattern means

A written pattern has a form, and a form has a language. Flags are read from left to right: a
change holds from where it is written to the end of the enclosing group, across the branches of an
alternation. Ignoring case widens single characters and brackets; a bracket is widened before it
is negated, and each operand before its operator.
-/

namespace RuleCheck.Pattern

structure Flags where
  caseless : Bool := false
  multiLine : Bool := false
  dotAll : Bool := false

def Flags.switch (flags : Flags) : Flag × Bool → Flags
  | (.caseless, value) => { flags with caseless := value }
  | (.multiLine, value) => { flags with multiLine := value }
  | (.dotAll, value) => { flags with dotAll := value }
  | (.swapGreed, _) => flags

def Flags.apply (flags : Flags) (change : FlagChange) : Flags :=
  change.foldl Flags.switch flags

/-- The set with case variants added if case is ignored. -/
def widen (caseless : Bool) (set : CharSet) : CharSet :=
  if caseless then set.withCaseVariants else set

def negateIf (negated : Bool) (set : CharSet) : CharSet :=
  if negated then set.complement else set

def SetOperator.apply : SetOperator → CharSet → CharSet → CharSet
  | .intersection => CharSet.inter
  | .difference => CharSet.diff
  | .symmetricDifference => CharSet.symmDiff

mutual

/-- The characters a set expression stands for. -/
def SetExpr.toSet (caseless : Bool) : SetExpr → CharSet
  | .empty => .empty
  | .range low high => .ofRange low high
  | .fixed set => set
  | .named negated set => negateIf negated (widen caseless set)
  | .bracket negated inner => negateIf negated (widen caseless (inner.toSet caseless))
  | .union items => SetExpr.unionOf caseless items
  | .combined operator left right =>
      operator.apply (widen caseless (left.toSet caseless)) (widen caseless (right.toSet caseless))

def SetExpr.unionOf (caseless : Bool) : List SetExpr → CharSet
  | [] => .empty
  | item :: rest => (item.toSet caseless).union (SetExpr.unionOf caseless rest)

end

mutual

/-- The form of a pattern under the given flags, and the flags in force after it. -/
def Expr.toForm (flags : Flags) : Expr → Form × Flags
  | .empty => (.empty, flags)
  | .flags change => (.empty, flags.apply change)
  | .char character => (.ofSet (widen flags.caseless (.singleton character)), flags)
  | .dot => (.set (if flags.dotAll then .full else .notLineFeed), flags)
  | .anchor condition => (.anchor condition, flags)
  | .caret => (.anchor (if flags.multiLine then .lineStart else .textStart), flags)
  | .dollar => (.anchor (if flags.multiLine then .lineEnd else .textEnd), flags)
  | .fixed set => (.ofSet set, flags)
  | .bracket set => (.ofSet (set.toSet flags.caseless), flags)
  | .repeated inner least most =>
      let (form, after) := inner.toForm flags
      (.ofTurns form least most, after)
  | .group captured change inner =>
      let form := (inner.toForm (flags.apply change)).1
      (if captured then .captured form else form, flags)
  | .alternation branches =>
      let (forms, after) := Expr.toForms flags branches
      (.ofBranches forms, after)
  | .concat parts =>
      let (forms, after) := Expr.toForms flags parts
      (.ofParts forms, after)

def Expr.toForms (flags : Flags) : List Expr → List Form × Flags
  | [] => ([], flags)
  | part :: rest =>
      let (form, between) := part.toForm flags
      let (forms, after) := Expr.toForms between rest
      (form :: forms, after)

end

def Expr.form (expr : Expr) : Form :=
  (expr.toForm {}).1

/-! ## Languages -/

def Regex.ofText : List Char → Regex
  | [] => .empty
  | character :: rest => .cat (.set (.singleton character)) (Regex.ofText rest)

mutual

def Form.toRegex : Form → Regex
  | .empty => .empty
  | .literal characters => .ofText characters
  | .set members => .set members
  | .anchor condition => .anchor condition
  | .rep inner least most => .rep inner.toRegex least most
  | .captured inner => inner.toRegex
  | .concat parts => Form.partsToRegex parts
  | .alternation branches => Form.branchesToRegex branches

def Form.partsToRegex : List Form → Regex
  | [] => .empty
  | part :: rest => part.toRegex.andThen (Form.partsToRegex rest)

def Form.branchesToRegex : List Form → Regex
  | [] => .set .empty
  | [branch] => branch.toRegex
  | branch :: rest => .alt branch.toRegex (Form.branchesToRegex rest)

end

end RuleCheck.Pattern
