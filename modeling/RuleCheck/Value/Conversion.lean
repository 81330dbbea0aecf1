import RuleCheck.Json.Basic
import RuleCheck.Value.Store

/-!
# Values from data

JSON data becomes a value of the same shape: a whole number that fits in a signed 64-bit integer
stays exact, any other number is in double precision, and of two members of an object with one
name the later counts.
-/

namespace RuleCheck

def Value.ofJsonNumber : JsonNumber → Value
  | .whole value => .ofInt value
  | .float value => .float value

mutual

def Value.ofJson : Json → StateM Store Value
  | .null => return .null
  | .bool value => return .bool value
  | .number value => return .ofJsonNumber value
  | .text value => return .text value
  | .array items => do Value.newArray (← Value.ofJsonItems items)
  | .object members => do Value.newObject (← Value.ofJsonMembers members)

def Value.ofJsonItems : List Json → StateM Store (List Value)
  | [] => return []
  | item :: rest => return (← Value.ofJson item) :: (← Value.ofJsonItems rest)

def Value.ofJsonMembers : List (String × Json) → StateM Store (List (String × Value))
  | [] => return []
  | (name, item) :: rest => return (name, ← Value.ofJson item) :: (← Value.ofJsonMembers rest)

end

def Value.ofTexts (texts : List String) : StateM Store Value :=
  Value.newArray (texts.map .text)

end RuleCheck
