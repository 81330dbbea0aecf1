import RuleCheck.Test.Builtin

/-!
# Calling functions and tests

Any function can be called with any arguments. A test answers `true` if it passes and a new array
of fragments if it does not. Called as a test, a function that answers anything else fails with a
diagnostic that quotes the answer.
-/

namespace RuleCheck

variable {σ : Type}

namespace TestCall

/-- The fragments of a generated diagnostic up to the compared value. -/
def leadingFragments (call : TestCall) (shouldText : String) : List Value :=
  (if call.each.isSome then [.text "each of the"] else [])
    ++ call.names.label?.toList.map .text
    ++ (match call.caller with
      | some caller => [.text "passed to", .text caller]
      | none => [])
    ++ [.text shouldText]
    ++ (match call.of with
      | some candidates => [.text "one of", candidates]
      | none => [call.target])
    ++ call.names.qualifierText?.toList.map .text
    ++ (match call.each with
      | some collection => [.text "but one of", collection]
      | none => [.text "but instead"])
    ++ [.text "is", call.subject]

end TestCall

/-- What a typed test answers as a function: `true`, or the fragments as a new array. -/
def TestOutcome.toValue : TestOutcome → StateM Store Value
  | .ok () => return .bool true
  | .error diagnostic => diagnostic.toValue

/-! ## Calling functions -/

mutual

def Function.answer (host : Host σ) : Function → List Value → Run σ Value
  | .host code _, arguments => Run.onHost (host.call code arguments)
  | .typed code _, arguments => do
      let call := TestCall.ofArguments (← Run.store) arguments
      Run.record (.tested code call)
      let outcome ← Run.onHost (host.test code call)
      Run.onStore outcome.toValue
  | .made _ _ predicate clauses, arguments => do
      let call := TestCall.ofArguments (← Run.store) arguments
      match ← predicate.ask host call.subject call.target with
      | .bool true => return .bool true
      | .array ref =>
          let fragments := (← Run.store).items ref
          Run.onStore (Value.newArray fragments)
      | _ =>
          let finals ← clauses.finalFragments host call.subject call.target
          Run.onStore (Value.newArray (call.leadingFragments clauses.shouldText ++ finals))
  | .kindName, arguments => return .ofKind (arguments.headD .undefined).kind

/-- The fragments that the final clauses add, in order. -/
def Clauses.finalFragments (host : Host σ) : Clauses → Value → Value → Run σ (List Value)
  | .should _, _, _ => return []
  | .thenText clauses content, subject, target =>
      return (← clauses.finalFragments host subject target) ++ [.text content]
  | .thenComputed clauses function, subject, target => do
      let fragments ← clauses.finalFragments host subject target
      Run.record (.called function [subject, target])
      return fragments ++ [← function.answer host [subject, target]]

end

def Function.apply (host : Host σ) (function : Function) (arguments : List Value) :
    Run σ Value := do
  Run.record (.called function arguments)
  function.answer host arguments

/-- What the answer of a function means for the test call it was made for. -/
def TestCall.outcome (call : TestCall) (store : Store) : Value → TestOutcome
  | .bool true => .ok ()
  | .array ref => .error (.ofValue store (.array ref))
  | answer =>
      .error ⟨[.text "test function for", .text call.names.label,
        .text "did not pass and returned", answer]⟩

def Function.runTest (host : Host σ) (function : Function) (call : TestCall) :
    Run σ TestOutcome := do
  let arguments ← Run.onStore call.toArguments
  let answer ← function.apply host arguments
  return call.outcome (← Run.store) answer

end RuleCheck
