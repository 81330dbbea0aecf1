import RuleCheck.Binary64.Shortest
import RuleCheck.Text.Quoted
import RuleCheck.Value.Snapshot

/-!
# Values as text

A value is written through its snapshot, so cycles show as the marker text. Lists stand in square
brackets and records in curly ones, parts separated by a comma and a space; keys, names of
functions and sources of patterns are written as they are, texts in quotes. Only a text that is
the whole value, and not empty, stands without quotes.
-/

namespace RuleCheck

/-- The text of a value that is not composite. -/
def Value.leafText : Value → String
  | .undefined => "undefined"
  | .null => "null"
  | .bool value => if value then "true" else "false"
  | .int value => toString value.toInt
  | .float value => value.text
  | .text value => Quoted.quote value
  | .function value =>
      match value.name? with
      | some name => "function " ++ name
      | none => "function"
  | .regex value => "/" ++ value.source ++ "/"
  | .date value => value.text
  | _ => ""

def joinWith (separator : String) : List String → String
  | [] => ""
  | [part] => part
  | part :: rest => part ++ separator ++ joinWith separator rest

mutual

def Snapshot.text : Snapshot → String
  | .leaf value => value.leafText
  | .list items => "[" ++ joinWith ", " (Snapshot.itemTexts items) ++ "]"
  | .record fields => "\x7b" ++ joinWith ", " (Snapshot.fieldTexts fields) ++ "\x7d"

def Snapshot.itemTexts : List Snapshot → List String
  | [] => []
  | item :: rest => item.text :: Snapshot.itemTexts rest

/-- The texts of several trees, each after its key. -/
def Snapshot.fieldTexts : List (String × Snapshot) → List String
  | [] => []
  | (key, item) :: rest => (key ++ ": " ++ item.text) :: Snapshot.fieldTexts rest

end

namespace Store

/-- The text of a value inside another one. -/
def renderNested (store : Store) (value : Value) : String :=
  (store.snapshot value).text

/-- The text of a value on its own. -/
def render (store : Store) (value : Value) : String :=
  match value with
  | .text content => if content.isEmpty then store.renderNested value else content
  | value => store.renderNested value

end Store

end RuleCheck
