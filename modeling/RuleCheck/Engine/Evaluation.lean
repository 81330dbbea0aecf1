import RuleCheck.Options.Basic
import RuleCheck.Rule.Validity
import RuleCheck.Test.Application

/-!
# Evaluation

A rule is evaluated depth first and from left to right, and the first failure ends the evaluation.
Each rule is decoded when its turn comes, so functions called before may have changed it; but a
list is walked over the members that it had when it was decoded.

The recursion goes down on `room`, the number of levels that may still be entered. Together with
the depth of the rule at hand it makes one more than the limit.
-/

namespace RuleCheck

variable {σ : Type}

/-- Why a rule did not pass. It was the literal `false`, and there is nothing to report, or it
failed and said why, possibly with no fragments. -/
inductive Failure where
  | rejected
  | diagnosed (diagnostic : Diagnostic)

def Failure.diagnostic? : Failure → Option Diagnostic
  | .rejected => none
  | .diagnosed diagnostic => some diagnostic

abbrev Outcome := Except Failure Unit

namespace SimpleRule

def callOf (rule : SimpleRule) (caller : Option String) (subject target : Value)
    (each of : Option Value) : TestCall :=
  { caller, names := rule.names, subject, target, each, of }

def noCandidates (rule : SimpleRule) (caller : Option String) (operator : Operator) :
    Diagnostic :=
  ⟨rule.names.label?.toList.map .text
    ++ (match caller with
      | some caller => [.text "passed to", .text caller]
      | none => [])
    ++ rule.names.qualifierText?.toList.map .text
    ++ [.text "is checked with", .text operator.name,
      .text "against an empty list of candidates:", rule.target]⟩

/-- Runs a test on values from left to right up to the first that fails. -/
def firstFailing (run : Value → Run σ TestOutcome) : List Value → Run σ TestOutcome
  | [] => return .ok ()
  | value :: rest => do
      match ← run value with
      | .ok () => firstFailing run rest
      | .error diagnostic => return .error diagnostic

/-- Runs a test on candidates from left to right up to the first that passes; if none does, the last
diagnostic is the answer. -/
def firstPassing (run : Value → Run σ TestOutcome) (last : Diagnostic) :
    List Value → Run σ TestOutcome
  | [] => return .error last
  | candidate :: rest => do
      match ← run candidate with
      | .ok () => return .ok ()
      | .error diagnostic => firstPassing run diagnostic rest

def testFunction (rule : SimpleRule) : Function :=
  rule.test.getD .kindTest

/-- Evaluates a simple rule. Members are those at the start. -/
def evaluate (host : Host σ) (caller : Option String) (rule : SimpleRule) :
    Run σ TestOutcome := do
  let store ← Run.store
  let run (subject target : Value) (each of : Option Value) : Run σ TestOutcome :=
    rule.testFunction.runTest host (rule.callOf caller subject target each of)
  let candidates := store.members rule.target
  let items := store.members rule.subject
  match rule.operator with
  | none => run rule.subject rule.target none none
  | some .each => firstFailing (fun item ↦ run item rule.target (some rule.subject) none) items
  | some .oneOf =>
      if candidates.isEmpty then return .error (rule.noCandidates caller .oneOf)
      else
        firstPassing (fun candidate ↦ run rule.subject candidate none (some rule.target)) .empty
          candidates
  | some .eachOf =>
      if items.isEmpty then return .ok ()
      else if candidates.isEmpty then return .error (rule.noCandidates caller .eachOf)
      else
        firstFailing (fun item ↦
          firstPassing (fun candidate ↦
            run item candidate (some rule.subject) (some rule.target)) .empty candidates) items

end SimpleRule

/-! ## Rules -/

namespace Options

def tooDeep (options : Options) (rule : Value) : Diagnostic :=
  ⟨[.text "rule nesting is deeper than the maximum depth of", .ofNat options.maxDepth,
    .text "at rule", rule]⟩

def malformedRule (rule : Value) : Diagnostic :=
  ⟨[.text "rule should be a boolean, a function or an array led by names but instead is", rule]⟩

/-- Checks the form of a rule, unless the options say not to. -/
def checkForm (options : Options) (rule : Value) : Run σ Outcome := do
  if options.production then return .ok ()
  else
    match Rule.check (← Run.store) rule with
    | .ok () => return .ok ()
    | .error fault => return .error (.diagnosed (← Run.onStore fault.diagnostic))

end Options

/-- Evaluates rules from left to right up to the first that does not pass. -/
def allPass (evaluate : Value → Run σ Outcome) : List Value → Run σ Outcome
  | [] => return .ok ()
  | rule :: rest => do
      match ← evaluate rule with
      | .ok () => allPass evaluate rest
      | .error failure => return .error failure

/-- Evaluates a decoded rule, given how the rules below it are evaluated. -/
def Shape.evaluate (host : Host σ) (caller : Option String) (below : Value → Run σ Outcome)
    (rule : Value) : Shape → Run σ Outcome
  | .boolean true => return .ok ()
  | .boolean false => return .error .rejected
  | .empty => return .ok ()
  | .function callee => do below (← callee.apply host [])
  | .guard condition rules => if condition then below rules else return .ok ()
  | .list rules => allPass below rules
  | .simple rule => do
      match ← rule.evaluate host caller with
      | .ok () => return .ok ()
      | .error diagnostic => return .error (.diagnosed diagnostic)
  | .malformed => return .error (.diagnosed (Options.malformedRule rule))

/-- Evaluates a rule at a depth, with room for so many levels. -/
def evaluateRule (host : Host σ) (options : Options) (caller : Option String) :
    Nat → Nat → Value → Run σ Outcome
  | 0, _, rule => return .error (.diagnosed (options.tooDeep rule))
  | room + 1, depth, rule => do
      match ← options.checkForm rule with
      | .error failure => return .error failure
      | .ok () =>
          let shape := Shape.ofValue (← Run.store) rule
          Run.record (.evaluating shape.name depth)
          shape.evaluate host caller (evaluateRule host options caller room (depth + 1)) rule

end RuleCheck
