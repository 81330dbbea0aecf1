import RuleCheck.Rule.Names
import RuleCheck.Rule.Operator

/-!
# Shapes of rules

Rules are plain values. Before a rule is evaluated it is decoded into one of seven shapes: an
outcome already known, a function that gives the rule to evaluate, the empty list, a guard
`[condition, rules]`, a simple rule `[names, subject, target, operator?, test?]`, any other array
as a list of rules, and what cannot be decoded.
-/

namespace RuleCheck

/-- A decoded simple rule, which uses the kind test if none is given. -/
structure SimpleRule where
  names : Names
  subject : Value
  target : Value
  operator : Option Operator
  test : Option Function

namespace SimpleRule

/-- Takes up one element after the third: the first text that names an operator while none is known,
the first function, and nothing else. -/
def takeOption (rule : SimpleRule) : Value → SimpleRule
  | .text name =>
      if rule.operator.isNone then { rule with operator := Operator.ofName? name } else rule
  | .function function =>
      if rule.test.isNone then { rule with test := some function } else rule
  | _ => rule

def ofParts (names : Names) (subject target : Value) (options : List Value) : SimpleRule :=
  options.foldl takeOption ⟨names, subject, target, none, none⟩

end SimpleRule

inductive ShapeName where
  | boolean
  | function
  | empty
  | guard
  | list
  | simple
  | malformed
deriving DecidableEq

def ShapeName.text : ShapeName → String
  | .boolean => "boolean"
  | .function => "function"
  | .empty => "empty"
  | .guard => "guard"
  | .list => "list"
  | .simple => "simple"
  | .malformed => "malformed"

/-- A decoded rule. A guard holds rules that are evaluated only under a condition, and a list is the
one that there was when it was decoded. -/
inductive Shape where
  | boolean (outcome : Bool)
  | function (function : Function)
  | empty
  | guard (condition : Bool) (rules : Value)
  | list (rules : List Value)
  | simple (rule : SimpleRule)
  | malformed

namespace Shape

/-- Decodes an array that is neither empty nor a guard. An array led by names is a simple rule if
it has two elements more, and cannot be decoded otherwise. -/
def ofMembers (store : Store) (first : Value) (rest : List Value) : Shape :=
  match Names.ofValue? store first with
  | none => .list (first :: rest)
  | some names =>
      match rest with
      | subject :: target :: options => .simple (.ofParts names subject target options)
      | _ => .malformed

def ofItems (store : Store) : List Value → Shape
  | [] => .empty
  | [.bool condition, .array rules] => .guard condition (.array rules)
  | first :: rest => ofMembers store first rest

def ofValue (store : Store) : Value → Shape
  | .bool outcome => .boolean outcome
  | .function callee => .function callee
  | .array ref => ofItems store (store.items ref)
  | _ => .malformed

def name : Shape → ShapeName
  | .boolean _ => .boolean
  | .function _ => .function
  | .empty => .empty
  | .guard _ _ => .guard
  | .list _ => .list
  | .simple _ => .simple
  | .malformed => .malformed

end Shape

end RuleCheck
