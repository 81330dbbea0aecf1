import RuleCheck.Value.Store

/-!
# Names

A simple rule begins with what it calls its subject: a label, or an array of a label and a
qualifier.
-/

namespace RuleCheck

structure Names where
  label : String := ""
  qualifier : String := ""
deriving DecidableEq

namespace Names

/-- The names that a value gives: a text, or an array of exactly two texts. -/
def ofValue? (store : Store) : Value → Option Names
  | .text label => some ⟨label, ""⟩
  | .array ref =>
      match store.items ref with
      | [.text label, .text qualifier] => some ⟨label, qualifier⟩
      | _ => none
  | _ => none

def isNames (store : Store) (value : Value) : Bool :=
  (ofValue? store value).isSome

def toValue (names : Names) : StateM Store Value :=
  Value.newArray [.text names.label, .text names.qualifier]

/-- The qualifier as it is shown in a diagnostic, unless it is empty. -/
def qualifierText? (names : Names) : Option String :=
  if names.qualifier.isEmpty then none else some ("(" ++ names.qualifier ++ ")")

def label? (names : Names) : Option String :=
  if names.label.isEmpty then none else some names.label

end Names

end RuleCheck
