import RuleCheck.Diagnostic
import RuleCheck.Rule.Names

/-!
# Test calls

A test is called with six arguments in fixed places: the caller's label, the names, the compared
value, the value it is tested against, and the whole collections that a rule iterates over. A
missing or undefined argument stands for an absent one.
-/

namespace RuleCheck

/-- One call of a test, with the collection that the compared value is a member of, when its members
are tested, and the collection of all candidates, when there are several. -/
structure TestCall where
  caller : Option String
  names : Names
  subject : Value
  target : Value
  each : Option Value
  of : Option Value

namespace TestCall

def defined? : Value → Option Value
  | .undefined => none
  | value => some value

/-- The six arguments of a call; the names become a new array. -/
def toArguments (call : TestCall) : StateM Store (List Value) := do
  let names ← call.names.toValue
  return [.ofText? call.caller, names, call.subject, call.target, call.each.getD .undefined,
    call.of.getD .undefined]

/-- The call that arguments stand for. A caller that is no text is absent, and an argument that
gives no names leaves them empty. -/
def ofArguments (store : Store) (arguments : List Value) : TestCall :=
  let argument (position : Nat) : Value := arguments[position]?.getD .undefined
  { caller := (argument 0).text?
    names := (Names.ofValue? store (argument 1)).getD {}
    subject := argument 2
    target := argument 3
    each := defined? (argument 4)
    of := defined? (argument 5) }

end TestCall

/-- What a test says: nothing if it passes, or why it does not. -/
abbrev TestOutcome := Except Diagnostic Unit

end RuleCheck
