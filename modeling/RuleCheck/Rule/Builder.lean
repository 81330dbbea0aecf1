import RuleCheck.Rule.Operator
import RuleCheck.Test.Builtin

/-!
# Building rules

Shorthand for common rules. What is built is plain data, the same as the array written out.
-/

namespace RuleCheck.Rule

def isKind (names value : Value) (kind : Kind) : StateM Store Value :=
  Value.newArray [names, value, .ofKind kind]

/-- The test is applied through an operator. -/
def withOperator (operator : Operator) (names value target : Value) : StateM Store Value :=
  Value.newArray [names, value, target, .text operator.name]

def isOneOf (names value kinds : Value) : StateM Store Value :=
  withOperator .oneOf names value kinds

def isEach (names value kind : Value) : StateM Store Value :=
  withOperator .each names value kind

def isEachOf (names value kinds : Value) : StateM Store Value :=
  withOperator .eachOf names value kinds

def withTest (test : Function) (names value target : Value) : StateM Store Value :=
  Value.newArray [names, value, target, .function test]

def equals (names value expected : Value) : StateM Store Value :=
  withTest .equalTest names value expected

def notEquals (names value expected : Value) : StateM Store Value :=
  withTest .notEqualTest names value expected

def isInRange (names value range : Value) : StateM Store Value :=
  withTest .rangeTest names value range

def isMatch (names value pattern : Value) : StateM Store Value :=
  withTest .patternTest names value pattern

/-- The rule holds unless the value is undefined. -/
def optional (value rule : Value) : StateM Store Value := do
  let rules ← Value.newArray [rule]
  Value.newArray [.bool (!value.isUndefined), rules]

end RuleCheck.Rule
