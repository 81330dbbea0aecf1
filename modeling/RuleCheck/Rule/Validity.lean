import RuleCheck.Diagnostic
import RuleCheck.Rule.Names
import RuleCheck.Rule.Operator

/-!
# Validity of rules

A rule is valid if it is a boolean, a function, an array not led by names, or a simple rule of
three to five elements of which the fourth and fifth are an operator and a test in either order,
neither of them twice. Only the rule at hand is looked at; members of a list or guard are checked
when they are evaluated in turn.
-/

namespace RuleCheck

/-- Why a rule is not valid. Positions count from zero. -/
inductive RuleFault where
  | notARule (rule : Value)
  | wrongLength (length : Nat) (rule : Value)
  | unknownOperator (position : Nat) (name : String) (rule : Value)
  | secondOperator (position first : Nat) (rule : Value)
  | secondTest (position first : Nat) (rule : Value)
  | notAnOption (position : Nat) (option : Value)

namespace RuleFault

def diagnostic : RuleFault → StateM Store Diagnostic
  | .notARule rule =>
      return ⟨[.text "each rule should be a function, a boolean or an array but instead is", rule,
        .text "with type", .ofKind rule.kind]⟩
  | .wrongLength length rule =>
      return ⟨[.text "a simple rule should have between 3 and 5 elements but instead has",
        .ofNat length, .text "elements:", rule]⟩
  | .unknownOperator position name rule => do
      let operators ← Operator.namesValue
      return ⟨[.text "element", .ofNat position,
        .text "of a simple rule should be one of", operators,
        .text "or a test function but instead is", .text name, .text "in rule", rule]⟩
  | .secondOperator position first rule =>
      return ⟨[.text "element", .ofNat position,
        .text "of a simple rule is a second multi operator; the first is element", .ofNat first,
        .text "in rule", rule]⟩
  | .secondTest position first rule =>
      return ⟨[.text "element", .ofNat position,
        .text "of a simple rule is a second test function; the first is element", .ofNat first,
        .text "in rule", rule]⟩
  | .notAnOption position option =>
      return ⟨[.text "element", .ofNat position,
        .text "of a simple rule should be a multi operator or a test function but instead is",
        option, .text "with type", .ofKind option.kind]⟩

end RuleFault

namespace Rule

/-- Checks the option slots from a position on, given where an operator and a test were found. -/
def checkOptions (rule : Value) (position : Nat) (operatorAt testAt : Option Nat) :
    List Value → Except RuleFault Unit
  | [] => .ok ()
  | .text name :: rest =>
      if (Operator.ofName? name).isNone then .error (.unknownOperator position name rule)
      else
        match operatorAt with
        | some first => .error (.secondOperator position first rule)
        | none => checkOptions rule (position + 1) (some position) testAt rest
  | .function _ :: rest =>
      match testAt with
      | some first => .error (.secondTest position first rule)
      | none => checkOptions rule (position + 1) operatorAt (some position) rest
  | option :: _ => .error (.notAnOption position option)

/-- Checks an array that is led by names. -/
def checkSimple (rule : Value) (items : List Value) : Except RuleFault Unit :=
  if 3 ≤ items.length ∧ items.length ≤ 5 then checkOptions rule 3 none none (items.drop 3)
  else .error (.wrongLength items.length rule)

def check (store : Store) (rule : Value) : Except RuleFault Unit :=
  match rule with
  | .function _ => .ok ()
  | .bool _ => .ok ()
  | .array ref =>
      let items := store.items ref
      match items with
      | first :: _ => if Names.isNames store first then checkSimple rule items else .ok ()
      | [] => .ok ()
  | rule => .error (.notARule rule)

end Rule

end RuleCheck
