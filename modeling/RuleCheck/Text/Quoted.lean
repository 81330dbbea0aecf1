import RuleCheck.Text.Digits

/-!
# Quoted text

A quoted text stands between double quotes. The quote and the backslash are escaped, the five
control characters with a letter of their own are written with it, every other character below
the space is written as `\u00` and two lower-case hexadecimal digits, and all other characters
stand for themselves.
-/

namespace RuleCheck.Quoted

def hexDigit (value : Nat) : Char :=
  if value < 10 then Char.ofNat ('0'.toNat + value) else Char.ofNat ('a'.toNat + (value - 10))

/-- The written form of one character inside quotes. -/
def escape (character : Char) : List Char :=
  if character = '"' then ['\\', '"']
  else if character = '\\' then ['\\', '\\']
  else if character = '\x08' then ['\\', 'b']
  else if character = '\x0c' then ['\\', 'f']
  else if character = '\n' then ['\\', 'n']
  else if character = '\r' then ['\\', 'r']
  else if character = '\t' then ['\\', 't']
  else if character.toNat < 32 then
    ['\\', 'u', '0', '0', hexDigit (character.toNat / 16), hexDigit (character.toNat % 16)]
  else [character]

def body (characters : List Char) : List Char :=
  characters.flatMap escape

def quote (text : String) : String :=
  String.ofList ('"' :: (body text.toList ++ ['"']))

@[simp] theorem body_nil : body [] = [] := rfl

@[simp] theorem body_cons (character : Char) (rest : List Char) :
    body (character :: rest) = escape character ++ body rest := rfl

@[simp] theorem toList_quote (text : String) :
    (quote text).toList = '"' :: (body text.toList ++ ['"']) := by
  simp [quote]

end RuleCheck.Quoted
