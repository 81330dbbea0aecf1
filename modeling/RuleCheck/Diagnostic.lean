import RuleCheck.Value.Rendering

/-!
# Diagnostics

A diagnostic is a list of fragments. Texts are prose and every other fragment is a value quoted in
place. Fragments are references like any other values, so a diagnostic shows the contents they
have when it is rendered.
-/

namespace RuleCheck

/-- Why something failed, in fragments. -/
structure Diagnostic where
  fragments : List Value

namespace Diagnostic

def empty : Diagnostic := ⟨[]⟩

/-- The items of an array, or a single value of any other constructor. -/
def ofValue (store : Store) : Value → Diagnostic
  | .array ref => ⟨store.items ref⟩
  | value => ⟨[value]⟩

def push (diagnostic : Diagnostic) (fragment : Value) : Diagnostic :=
  ⟨diagnostic.fragments ++ [fragment]⟩

def isEmpty (diagnostic : Diagnostic) : Bool :=
  diagnostic.fragments.isEmpty

def toValue (diagnostic : Diagnostic) : StateM Store Value :=
  Value.newArray diagnostic.fragments

/-- The texts of the fragments, separated by spaces. -/
def render (store : Store) (diagnostic : Diagnostic) : String :=
  joinWith " " (diagnostic.fragments.map store.render)

end Diagnostic

end RuleCheck
