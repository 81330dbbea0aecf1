import RuleCheck.Value.Store

/-!
# Operators

An operator makes a simple rule apply its test to several values: to each member of the compared
value, against the members of the other one, or both.
-/

namespace RuleCheck

/-- How a test is applied to several values: every member of the compared value passes, the value
passes against some candidate, or both. -/
inductive Operator where
  | each
  | oneOf
  | eachOf
deriving DecidableEq

namespace Operator

/-- All operators, in the order in which they are offered. -/
def all : List Operator := [.oneOf, .each, .eachOf]

def name : Operator → String
  | .each => "each"
  | .oneOf => "oneOf"
  | .eachOf => "eachOf"

def ofName? (name : String) : Option Operator :=
  all.find? fun operator ↦ operator.name == name

def namesValue : StateM Store Value :=
  Value.newArray (all.map fun operator ↦ .text operator.name)

@[simp] theorem ofName_name (operator : Operator) : ofName? operator.name = some operator := by
  cases operator <;> decide

end Operator

end RuleCheck
