import RuleCheck.Json.Basic

/-!
# Options

An engine has two options. In production it skips the checks of report channels and of the form of
rules, and a limit bounds how deeply rules are nested. A limit read from outside must be positive.
-/

namespace RuleCheck

/-- The options of an engine, with the greatest depth at which a rule is evaluated. -/
structure Options where
  production : Bool := false
  maxDepth : Nat := 256
deriving DecidableEq

inductive OptionsFault where
  | json (fault : JsonFault)
  | invalidFlag (name value : String)
  | invalidDepth (name value : String)
deriving DecidableEq

/-- The wording of a fault; what is wrong with a JSON text is not worded. -/
def OptionsFault.message : OptionsFault → String
  | .json _ => "invalid engine options"
  | .invalidFlag name value =>
      name ++ " should be true, false, 1 or 0 but instead is '" ++ value ++ "'"
  | .invalidDepth name value =>
      name ++ " should be a positive integer but instead is '" ++ value ++ "'"

namespace Options

/-- The greatest limit that can be written. -/
abbrev maxWrittenDepth : Nat := Nat.pow 2 64 - 1

def inProduction : Options := { production := true }

def withMaxDepth (options : Options) (maxDepth : Nat) : Options :=
  { options with maxDepth }

def checkDepth (name : String) (depth : Nat) : Except OptionsFault Nat :=
  if depth = 0 then .error (.invalidDepth name "0") else .ok depth

end Options

end RuleCheck
