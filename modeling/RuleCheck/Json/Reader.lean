import RuleCheck.Json.Number

/-!
# Reading JSON

A text is read from left to right, and the first fault found is the answer. Arrays and objects may
be nested 127 deep. Every loop takes at least one character per turn, so the length of the text
bounds them all; that bound is handed down as fuel.
-/

namespace RuleCheck.Json

/-- A reader takes what it reads from the front of a text. -/
abbrev Reader (α : Type) := List Char → Except JsonFault (α × List Char)

def isBlank (character : Char) : Bool :=
  character == ' ' || character == '\n' || character == '\t' || character == '\r'

def skipBlanks (characters : List Char) : List Char :=
  characters.dropWhile isBlank

def expect : List Char → List Char → Except JsonFault (List Char)
  | [], rest => .ok rest
  | _ :: _, [] => .error .endOfText
  | wanted :: others, character :: rest =>
      if character = wanted then expect others rest else .error .malformed

/-! ## Strings -/

/-- Reads the four hexadecimal digits of an escape. A text with fewer than four bytes left ends too
early, whatever they are. -/
def readCodeUnit : Reader Nat := fun characters ↦
  match characters with
  | first :: second :: third :: fourth :: rest =>
      match Digits.hexDigit? first, Digits.hexDigit? second, Digits.hexDigit? third,
        Digits.hexDigit? fourth with
      | some a, some b, some c, some d => .ok (((a * 16 + b) * 16 + c) * 16 + d, rest)
      | _, _, _, _ => .error .malformed
  | few => .error (if (String.ofList few).utf8ByteSize < 4 then .endOfText else .malformed)

/-- Reads what follows `\u`: a code unit, or a surrogate pair in two escapes. -/
def readUnicodeEscape : Reader Char := fun characters ↦ do
  let (unit, rest) ← readCodeUnit characters
  if 0xDC00 ≤ unit && unit ≤ 0xDFFF then .error .malformed
  else if unit < 0xD800 || 0xDBFF < unit then return (Char.ofNat unit, rest)
  else
    match rest with
    | [] => .error .endOfText
    | '\\' :: [] => .error .endOfText
    | '\\' :: 'u' :: rest =>
        let (trailing, rest) ← readCodeUnit rest
        if 0xDC00 ≤ trailing && trailing ≤ 0xDFFF then
          return (Char.ofNat (0x10000 + (unit - 0xD800) * 0x400 + (trailing - 0xDC00)), rest)
        else .error .malformed
    | _ => .error .malformed

def readEscape : Reader Char
  | [] => .error .endOfText
  | character :: rest =>
      match character with
      | '"' => .ok ('"', rest)
      | '\\' => .ok ('\\', rest)
      | '/' => .ok ('/', rest)
      | 'b' => .ok ('\x08', rest)
      | 'f' => .ok ('\x0c', rest)
      | 'n' => .ok ('\n', rest)
      | 'r' => .ok ('\r', rest)
      | 't' => .ok ('\t', rest)
      | 'u' => readUnicodeEscape rest
      | _ => .error .malformed

/-- Reads the rest of a string, after the characters read so far, which are in reverse. -/
def readTextFrom : Nat → List Char → Reader String
  | 0, _, _ => .error .endOfText
  | _, _, [] => .error .endOfText
  | fuel + 1, done, character :: rest =>
      if character = '"' then .ok (String.ofList done.reverse, rest)
      else if character = '\\' then
        match readEscape rest with
        | .ok (escaped, after) => readTextFrom fuel (escaped :: done) after
        | .error fault => .error fault
      else if character.toNat < 32 then .error .malformed
      else readTextFrom fuel (character :: done) rest

def readText (bound : Nat) : Reader String :=
  readTextFrom (bound + 1) []

/-- Reads the rest of an array, after the items read so far, which are in reverse. -/
def readItemsFrom (item : Reader Json) : Nat → List Json → Reader (List Json)
  | 0, _, _ => .error .endOfText
  | fuel + 1, done, characters =>
      match skipBlanks characters with
      | [] => .error .endOfText
      | ']' :: rest => .ok (done.reverse, rest)
      | ',' :: rest =>
          match skipBlanks rest with
          | [] => .error (if done.isEmpty then .malformed else .endOfText)
          | ']' :: _ => .error .malformed
          | start =>
              if done.isEmpty then .error .malformed
              else do
                let (value, after) ← item start
                readItemsFrom item fuel (value :: done) after
      | start =>
          if done.isEmpty then do
            let (value, after) ← item start
            readItemsFrom item fuel (value :: done) after
          else .error .malformed

def readColon (characters : List Char) : Except JsonFault (List Char) :=
  match skipBlanks characters with
  | [] => .error .endOfText
  | ':' :: rest => .ok rest
  | _ => .error .malformed

/-- What stands before the next member of an object. -/
inductive MemberStart where
  | closed
  | name

/-- Reads up to the next name of an object, past a comma unless it is the first, or past the end of
the object. -/
def readMemberStart (first : Bool) : Reader MemberStart := fun characters ↦
  match skipBlanks characters with
  | [] => .error .endOfText
  | '\x7d' :: rest => .ok (.closed, rest)
  | '"' :: rest => if first then .ok (.name, rest) else .error .malformed
  | ',' :: rest =>
      if first then .error .malformed
      else
        match skipBlanks rest with
        | [] => .error .endOfText
        | '"' :: rest => .ok (.name, rest)
        | _ => .error .malformed
  | _ => .error .malformed

/-- Reads the rest of an object, after the members read so far, which are in reverse. -/
def readMembersFrom (item : Reader Json) (bound : Nat) :
    Nat → List (String × Json) → Reader (List (String × Json))
  | 0, _, _ => .error .endOfText
  | fuel + 1, done, characters => do
      let (start, rest) ← readMemberStart done.isEmpty characters
      match start with
      | .closed => .ok (done.reverse, rest)
      | .name =>
          let (name, rest) ← readText bound rest
          let rest ← readColon rest
          let (value, rest) ← item rest
          readMembersFrom item bound fuel ((name, value) :: done) rest

/-! ## Values -/

abbrev nestingLimit : Nat := 127

/-- Reads a value in which arrays and objects may still be nested `room` deep. -/
def readValue (bound : Nat) : Nat → Reader Json
  | room, characters =>
      match skipBlanks characters with
      | [] => .error .endOfText
      | 'n' :: rest => do return (.null, ← expect ['u', 'l', 'l'] rest)
      | 't' :: rest => do return (.bool true, ← expect ['r', 'u', 'e'] rest)
      | 'f' :: rest => do return (.bool false, ← expect ['a', 'l', 's', 'e'] rest)
      | '"' :: rest => do
          let (value, after) ← readText bound rest
          return (.text value, after)
      | '[' :: rest =>
          match room with
          | 0 => .error .malformed
          | room + 1 => do
              let (items, after) ← readItemsFrom (readValue bound room) (bound + 1) [] rest
              return (.array items, after)
      | '\x7b' :: rest =>
          match room with
          | 0 => .error .malformed
          | room + 1 => do
              let (members, after) ←
                readMembersFrom (readValue bound room) bound (bound + 1) [] rest
              return (.object members, after)
      | start =>
          if start.head? = some '-' || JsonNumber.startsWithDigit start then do
            let (value, after) ← JsonNumber.read start
            return (.number value, after)
          else .error .malformed

/-- Accepts what was read if nothing but blanks follows it. -/
def finish {α : Type} (result : α × List Char) : Except JsonFault α :=
  if (skipBlanks result.2).isEmpty then .ok result.1 else .error .malformed

def parse (text : String) : Except JsonFault Json :=
  let characters := text.toList
  readValue characters.length nestingLimit characters >>= finish

def member? (json : Json) (name : String) : Option Json :=
  match json with
  | .object members => (members.find? fun member ↦ member.1 == name).map (·.2)
  | _ => none

end RuleCheck.Json
