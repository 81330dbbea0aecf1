import RuleCheck.Test.Range
import RuleCheck.Value.Equality
import RuleCheck.World

/-!
# The library's own tests

There are five: the kind of a value, equality and its negation, ranges, and patterns. A predicate
answers `true`, or an array of fragments that says why it cannot be asked, or anything else.
-/

namespace RuleCheck

namespace Function

/-- The value has the kind that the rule names. This is the test of a rule without one. -/
def kindTest : Function :=
  .made none "type" .kind
    (((Clauses.should "should have as type").thenText "with type").thenComputed .kindName)

def equalTest : Function :=
  .made none "equal" .equal (.should "should be equal to")

/-- The two values are not deeply equal. -/
def notEqualTest : Function :=
  .made none "notEqual" .notEqual (.should "should not be equal to")

/-- The value is within all bounds of an object. -/
def rangeTest : Function :=
  .made none "range" .range (.should "should be in range")

def patternTest : Function :=
  .made none "match" .pattern (.should "should match")

end Function

namespace Predicate

def askRange (subject target : Value) : StateM Store Value := do
  match target with
  | .object ref =>
      let bounds := (← get).fields ref
      match bounds.unknownBound? with
      | some key =>
          let keys ← Value.newArray (Bound.keys.map .text)
          Value.newArray [.text "range test received an invalid key", .text key,
            .text "; valid keys are", keys]
      | none => return .bool (bounds.boundsHold subject)
  | target =>
      let keys ← Value.newArray (Bound.keys.map .text)
      Value.newArray [.text "range test expects an object with keys among", keys,
        .text "but instead received", target, .text "with type", .ofKind target.kind]

def askPattern (subject target : Value) : StateM Store Value :=
  match subject, target with
  | .text content, .regex expression => return .bool (expression.isMatch content)
  | .text _, target =>
      Value.newArray [.text ("invalid to value passed to the match test: it should be a regex "
        ++ "but instead is"), target, .text "with type", .ofKind target.kind]
  | subject, _ =>
      Value.newArray [.text ("invalid compare value passed to the match test: it should be a "
        ++ "string but instead is"), subject, .text "with type", .ofKind subject.kind]

def answer {σ : Type} (host : Host σ) (predicate : Predicate) (subject target : Value) :
    Run σ Value :=
  match predicate with
  | .kind => return .bool (target.text? == some subject.kind.name)
  | .equal => return .bool ((← Run.store).equal subject target)
  | .notEqual => return .bool (!(← Run.store).equal subject target)
  | .range => Run.onStore (askRange subject target)
  | .pattern => Run.onStore (askPattern subject target)
  | .host code => Run.onHost (host.judge code subject target)

def ask {σ : Type} (host : Host σ) (predicate : Predicate) (subject target : Value) :
    Run σ Value := do
  Run.record (.judged predicate subject target)
  predicate.answer host subject target

end Predicate

end RuleCheck
