import RuleCheck.Diagnostic

/-!
# Report channels

A failed evaluation is printed to the engine's sink, handed back as a text, or passed to a
function. The channel may be given as a value: undefined prints, `true` hands back a text, and a
function is called.
-/

namespace RuleCheck

/-- How a failure is delivered. What a listener answers does not matter. -/
inductive Report where
  | print
  | text
  | callback (listener : Function)

/-- A value that gives no channel, as it is shown. -/
structure ChannelFault where
  value : String
  kind : Kind
deriving DecidableEq

def ChannelFault.message (fault : ChannelFault) : String :=
  "report channel should be undefined, true or a function but instead is " ++ fault.value
    ++ " with type " ++ fault.kind.name

namespace Report

def name : Report → String
  | .print => "print"
  | .text => "text"
  | .callback _ => "callback"

def describe (report : Report) : String :=
  "Report::" ++ report.name

def ofValue (store : Store) : Value → Except ChannelFault Report
  | .undefined => .ok .print
  | .bool true => .ok .text
  | .function listener => .ok (.callback listener)
  | value => .error ⟨store.render value, value.kind⟩

end Report

inductive Verdict where
  | pass
  | fail
  | report (message : String)
deriving DecidableEq

namespace Verdict

def isPass : Verdict → Bool
  | .pass => true
  | _ => false

def message? : Verdict → Option String
  | .report message => some message
  | _ => none

end Verdict

end RuleCheck
