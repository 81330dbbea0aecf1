import RuleCheck.Engine.Evaluation
import RuleCheck.Engine.Report
import RuleCheck.Engine.Sink

/-!
# Engines

An engine has options and a sink. It evaluates a rule and delivers a failure through a report
channel; only what is printed changes the sink, and nothing changes the options.
-/

namespace RuleCheck

variable {σ : Type}

structure Engine where
  options : Options := {}
  sink : Sink := .console []

namespace Engine

def defaultLabel : String := "validation"

/-- The label under which diagnostics are delivered. -/
def labelText (label : Option String) : String :=
  label.getD defaultLabel

/-- The event that an evaluation ends with, if it did not pass. -/
def closingEvent? (store : Store) (label : Option String) : Outcome → Option Event
  | .ok () => none
  | .error .rejected => some (.rejected (labelText label))
  | .error (.diagnosed diagnostic) => some (.failed (labelText label) (diagnostic.render store))

/-- Evaluates a rule and answers its failure instead of delivering it. -/
def check (host : Host σ) (engine : Engine) (label : Option String) (rule : Value) :
    Run σ Outcome := do
  let outcome ← evaluateRule host engine.options label (engine.options.maxDepth + 1) 0 rule
  match closingEvent? (← Run.store) label outcome with
  | some event => Run.record event
  | none => pure ()
  return outcome

def print (host : Host σ) (engine : Engine) (label : Option String) (diagnostic : Diagnostic) :
    Run σ Engine := do
  let text := diagnostic.render (← Run.store)
  return { engine with sink := ← engine.sink.accept host ⟨labelText label, text⟩ }

def deliver (host : Host σ) (engine : Engine) (label : Option String) (report : Report) :
    Failure → Run σ (Verdict × Engine)
  | .rejected => return (.fail, engine)
  | .diagnosed diagnostic =>
      match report with
      | .print => return (.fail, ← engine.print host label diagnostic)
      | .text => return (.report (diagnostic.render (← Run.store)), engine)
      | .callback listener => do
          let text := diagnostic.render (← Run.store)
          let _ ← listener.apply host [.text text]
          return (.fail, engine)

/-- Evaluates a rule and delivers a failure. The label names the function whose input is checked. -/
def evaluate (host : Host σ) (engine : Engine) (label : Option String) (rule : Value)
    (report : Report) : Run σ (Verdict × Engine) := do
  match ← engine.check host label rule with
  | .ok () => return (.pass, engine)
  | .error failure => engine.deliver host label report failure

/-- Evaluates a rule with a report channel given as a value. A value that gives no channel prints in
production, and otherwise fails, and is itself printed, before the rule is looked at. -/
def evaluateWith (host : Host σ) (engine : Engine) (label : Option String) (rule channel : Value) :
    Run σ (Verdict × Engine) := do
  match Report.ofValue (← Run.store) channel with
  | .ok report => engine.evaluate host label rule report
  | .error fault =>
      if engine.options.production then engine.evaluate host label rule .print
      else
        Run.record (.channelRefused fault.message)
        return (.fail, ← engine.print host label ⟨[.text fault.message]⟩)

def passes (host : Host σ) (engine : Engine) (rule : Value) : Run σ (Bool × Engine) := do
  let (verdict, engine) ← engine.evaluate host none rule .print
  return (verdict.isPass, engine)

/-- Whether a rule does not pass, after delivering its failure. -/
def stops (host : Host σ) (engine : Engine) (label : Option String) (rule : Value)
    (report : Report) : Run σ (Bool × Engine) := do
  let (verdict, engine) ← engine.evaluate host label rule report
  return (!verdict.isPass, engine)

end Engine

end RuleCheck
