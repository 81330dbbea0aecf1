import RuleCheck.Json.Reader
import RuleCheck.Options.Basic

/-!
# Options from JSON

Options are written as an object with the members `production` and `max_depth`, each at most once
and both optional, or as an array of these two values of which the last ones may be left out. The
text is read from left to right and the first fault found is the answer, so a member that is
unknown or repeated is refused before its value is read.
-/

namespace RuleCheck.Options

open Json (Reader skipBlanks)

def maxDepthMember : String := "max_depth"

/-- The fault of a value that should have been of another shape: its own fault, if it is a literal,
a number or a string that cannot be read. -/
def shapeFault (bound : Nat) (characters : List Char) : JsonFault :=
  let faultOf {α : Type} (result : Except JsonFault α) : JsonFault :=
    match result with
    | .ok _ => .wrongShape
    | .error fault => fault
  match characters with
  | [] => .endOfText
  | 'n' :: rest => faultOf (Json.expect ['u', 'l', 'l'] rest)
  | 't' :: rest => faultOf (Json.expect ['r', 'u', 'e'] rest)
  | 'f' :: rest => faultOf (Json.expect ['a', 'l', 's', 'e'] rest)
  | '"' :: rest => faultOf (Json.readText bound rest)
  | '[' :: _ => .wrongShape
  | '\x7b' :: _ => .wrongShape
  | start =>
      if start.head? = some '-' || JsonNumber.startsWithDigit start then
        faultOf (JsonNumber.read start)
      else .malformed

def readBool (bound : Nat) : Reader Bool := fun characters ↦
  match skipBlanks characters with
  | 't' :: rest => do return (true, ← Json.expect ['r', 'u', 'e'] rest)
  | 'f' :: rest => do return (false, ← Json.expect ['a', 'l', 's', 'e'] rest)
  | start => .error (shapeFault bound start)

/-- Reads a limit: a whole number from 0 to `2 ^ 64 - 1`. -/
def readDepth (bound : Nat) : Reader Nat := fun characters ↦
  let start := skipBlanks characters
  if start.head? = some '-' || JsonNumber.startsWithDigit start then do
    match ← JsonNumber.read start with
    | (.whole value, rest) =>
        if 0 ≤ value then return (value.toNat, rest) else .error .wrongShape
    | _ => .error .wrongShape
  else .error (shapeFault bound start)

/-! ## The object form -/

structure Given where
  production : Option Bool := none
  maxDepth : Option Nat := none

/-- The options, with defaults for what was not given. -/
def Given.options (given : Given) : Options :=
  let defaults : Options := {}
  { production := given.production.getD defaults.production
    maxDepth := given.maxDepth.getD defaults.maxDepth }

def readMember (bound : Nat) (given : Given) (name : String) : Reader Given := fun characters ↦
  if name = "production" then
    if given.production.isSome then .error .wrongShape
    else do
      let (production, rest) ← readBool bound (← Json.readColon characters)
      return ({ given with production := some production }, rest)
  else if name = maxDepthMember then
    if given.maxDepth.isSome then .error .wrongShape
    else do
      let (maxDepth, rest) ← readDepth bound (← Json.readColon characters)
      return ({ given with maxDepth := some maxDepth }, rest)
  else .error .wrongShape

/-- Reads the rest of an object. No more than two members can be accepted, so three turns are
enough. -/
def readMembers (bound : Nat) : Nat → Bool → Given → Reader Given
  | 0, _, _, _ => .error .wrongShape
  | fuel + 1, first, given, characters => do
      let (start, rest) ← Json.readMemberStart first characters
      match start with
      | .closed => return (given, rest)
      | .name =>
          let (name, rest) ← Json.readText bound rest
          let (given, rest) ← readMember bound given name rest
          readMembers bound fuel false given rest

/-! ## The array form -/

/-- Reads up to the next item of an array, past a comma unless it is the first; none is left if the
array ends here. -/
def readItemStart (first : Bool) (characters : List Char) :
    Except JsonFault (Option (List Char)) :=
  match skipBlanks characters with
  | [] => .error .endOfText
  | ']' :: _ => .ok none
  | ',' :: rest =>
      if first then .ok (some (',' :: rest))
      else
        match skipBlanks rest with
        | [] => .error .endOfText
        | ']' :: _ => .error .malformed
        | start => .ok (some start)
  | start => if first then .ok (some start) else .error .malformed

def readArrayEnd (characters : List Char) : Except JsonFault (List Char) :=
  match skipBlanks characters with
  | [] => .error .endOfText
  | ']' :: rest => .ok rest
  | _ => .error .malformed

def readItems (bound : Nat) : Reader Given := fun characters ↦ do
  match ← readItemStart true characters with
  | none => return ({}, ← readArrayEnd characters)
  | some start =>
      let (production, rest) ← readBool bound start
      match ← readItemStart false rest with
      | none => return ({ production := some production }, ← readArrayEnd rest)
      | some start =>
          let (maxDepth, rest) ← readDepth bound start
          return ({ production := some production, maxDepth := some maxDepth },
            ← readArrayEnd rest)

def readGiven (bound : Nat) : Reader Given := fun characters ↦
  match skipBlanks characters with
  | '\x7b' :: rest => readMembers bound 3 true {} rest
  | '[' :: rest => readItems bound rest
  | start => .error (shapeFault bound start)

def ofJson (text : String) : Except OptionsFault Options :=
  let characters := text.toList
  match readGiven characters.length characters >>= Json.finish with
  | .error fault => .error (.json fault)
  | .ok given => do
      let options := given.options
      return { options with maxDepth := ← checkDepth maxDepthMember options.maxDepth }

end RuleCheck.Options
