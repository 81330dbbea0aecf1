import RuleCheck.Options.Basic
import RuleCheck.Text.Digits
import RuleCheck.Unicode.Blank

/-!
# Options from variables

Two variables set the two options. Values are trimmed of blank characters on both sides. A later
value for a variable replaces an earlier one, other variables are ignored, and the first bad value
is the answer even if a later one would replace it.
-/

namespace RuleCheck.Options

def productionVariable : String := "VIGIL_PRODUCTION"

def maxDepthVariable : String := "VIGIL_MAX_DEPTH"

def isBlank (character : Char) : Bool :=
  Unicode.blankRanges.any fun range ↦
    decide (range.1 ≤ character.toNat) && decide (character.toNat ≤ range.2)

def trim (value : String) : String :=
  String.ofList ((value.toList.dropWhile isBlank).reverse.dropWhile isBlank).reverse

def onTexts : List String := ["1", "true", "yes", "on"]

def offTexts : List String := ["0", "false", "no", "off", ""]

/-- A text with its ASCII letters in lower case. -/
def lowerCase (value : String) : String :=
  String.ofList (value.toList.map Char.toLower)

/-- Reads a flag; the case of ASCII letters does not matter. -/
def readFlag? (value : String) : Option Bool :=
  if onTexts.contains (lowerCase value) then some true
  else if offTexts.contains (lowerCase value) then some false
  else none

/-- Reads a count: ASCII digits after an optional plus sign, below `2 ^ 64`. -/
def readCount? (value : String) : Option Nat :=
  let digits := match value.toList with
    | '+' :: rest => rest
    | characters => characters
  (Digits.number? digits).filter fun count ↦ decide (count ≤ maxWrittenDepth)

def takeVariable (options : Options) (name value : String) : Except OptionsFault Options :=
  let value := trim value
  if name = productionVariable then
    match readFlag? value with
    | some production => .ok { options with production }
    | none => .error (.invalidFlag productionVariable value)
  else if name = maxDepthVariable then
    match readCount? value with
    | some depth => do return { options with maxDepth := ← checkDepth maxDepthVariable depth }
    | none => .error (.invalidDepth maxDepthVariable value)
  else .ok options

def takeVariables (options : Options) : List (String × String) → Except OptionsFault Options
  | [] => .ok options
  | (name, value) :: rest => do (← options.takeVariable name value).takeVariables rest

def ofVariables (assignments : List (String × String)) : Except OptionsFault Options :=
  takeVariables {} assignments

end RuleCheck.Options
