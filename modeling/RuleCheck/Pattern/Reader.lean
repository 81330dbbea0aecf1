import RuleCheck.Text.Digits
import RuleCheck.Pattern.Expr

/-!
# Reading patterns

A pattern is read from left to right with a stack of open groups, and a bracket with a stack of
open brackets. Both loops take at least one character per turn, so the length of the text bounds
them. A text that is no pattern is malformed, whatever the cause; there is no look-around and there
are no back-references. A text that goes on with a Unicode property or with one of the flags `x`, `u`
and `R` is foreign: it is not read any further, and it may or may not be a pattern.
-/

namespace RuleCheck.Pattern

/-- Why a text has no tree. -/
inductive ReadFault where
  | malformed
  | foreign
deriving DecidableEq

/-- A reader that finds nothing has met a text that is no pattern. -/
def required {α : Type} : Option α → Except ReadFault α
  | some result => .ok result
  | none => .error .malformed

inductive Atom where
  | char (character : Char)
  | fixed (set : CharSet)
  | anchor (anchor : Anchor)

/-- The characters with a meaning of their own, which an escape takes away. -/
def isMeta (character : Char) : Bool :=
  "\\.+*?()|[]\x7b\x7d^$#&-~".toList.contains character

/-- Whether an escaped character stands for itself: any ASCII character that is neither a letter
nor a digit nor an angle bracket. -/
def isEscapable (character : Char) : Bool :=
  isMeta character || (decide (character.toNat < 128) && !character.isAlphanum
    && character != '<' && character != '>')

def charOfHex? (digits : List Char) : Option Char := do
  let values ← digits.mapM Digits.hexDigit?
  let code := values.foldl (16 * · + ·) 0
  if code.isValidChar then some (Char.ofNat code) else none

/-- Reads the code after `\x`, `\u` or `\U`: a fixed number of digits, or any number of them in
braces. -/
def readHex (count : Nat) : List Char → Option (Atom × List Char)
  | '\x7b' :: rest =>
      let digits := rest.takeWhile (· != '\x7d')
      match rest.drop digits.length with
      | [] => none
      | _ :: after =>
          if digits.isEmpty then none else (charOfHex? digits).map fun c ↦ (.char c, after)
  | rest =>
      let digits := rest.take count
      if digits.length < count then none
      else (charOfHex? digits).map fun c ↦ (.char c, rest.drop count)

def isBoundaryNameChar (character : Char) : Bool :=
  character.isAlpha || character == '-'

/-- Reads what may follow `\b`: the name of a special word boundary in braces. Braces that do not
begin with a name are left to be read as a repetition. -/
def readBoundary : List Char → Option (Atom × List Char)
  | '\x7b' :: rest =>
      match rest with
      | [] => none
      | first :: _ =>
          if isBoundaryNameChar first then
            let name := rest.takeWhile isBoundaryNameChar
            match rest.drop name.length with
            | '\x7d' :: after =>
                match String.ofList name with
                | "start" => some (.anchor .wordStart, after)
                | "end" => some (.anchor .wordEnd, after)
                | "start-half" => some (.anchor .wordStartHalf, after)
                | "end-half" => some (.anchor .wordEndHalf, after)
                | _ => none
            | _ => none
          else some (.anchor .wordBoundary, '\x7b' :: rest)
  | rest => some (.anchor .wordBoundary, rest)

def readEscape : List Char → Except ReadFault (Atom × List Char)
  | [] => .error .malformed
  | character :: rest =>
      match character with
      | 'x' => required (readHex 2 rest)
      | 'u' => required (readHex 4 rest)
      | 'U' => required (readHex 8 rest)
      | 'p' => .error .foreign
      | 'P' => .error .foreign
      | 'd' => .ok (.fixed .digit, rest)
      | 'D' => .ok (.fixed CharSet.digit.complement, rest)
      | 's' => .ok (.fixed .blank, rest)
      | 'S' => .ok (.fixed CharSet.blank.complement, rest)
      | 'w' => .ok (.fixed .word, rest)
      | 'W' => .ok (.fixed CharSet.word.complement, rest)
      | 'a' => .ok (.char '\x07', rest)
      | 'f' => .ok (.char '\x0c', rest)
      | 't' => .ok (.char '\t', rest)
      | 'n' => .ok (.char '\n', rest)
      | 'r' => .ok (.char '\r', rest)
      | 'v' => .ok (.char '\x0b', rest)
      | 'A' => .ok (.anchor .textStart, rest)
      | 'z' => .ok (.anchor .textEnd, rest)
      | 'b' => required (readBoundary rest)
      | 'B' => .ok (.anchor .notWordBoundary, rest)
      | '<' => .ok (.anchor .wordStart, rest)
      | '>' => .ok (.anchor .wordEnd, rest)
      | _ => if isEscapable character then .ok (.char character, rest) else .error .malformed

/-! ## Brackets -/

/-- An open bracket: its items so far, in reverse, and the operator and left operand that wait
for their right operand. -/
structure OpenBracket where
  negated : Bool
  items : List SetExpr
  pending : Option (SetOperator × SetExpr)

def OpenBracket.add (level : OpenBracket) (item : SetExpr) : OpenBracket :=
  { level with items := item :: level.items }

/-- The operand that the items make, combined with what waits for it. -/
def OpenBracket.operand (level : OpenBracket) : SetExpr :=
  match level.pending with
  | none => .ofReversed level.items
  | some (operator, left) => .combined operator left (.ofReversed level.items)

/-- Starts the right operand of an operator; operators group to the left. -/
def OpenBracket.operate (level : OpenBracket) (operator : SetOperator) : OpenBracket :=
  { level with items := [], pending := some (operator, level.operand) }

def OpenBracket.close (level : OpenBracket) : SetExpr :=
  .bracket level.negated level.operand

/-- Reads the beginning of a bracket after `[`: a `^`, dashes, and, if there was no dash, a closing
bracket, which all but the first stand for themselves. -/
def openBracket (characters : List Char) : Option (OpenBracket × List Char) :=
  let negated := characters.head? == some '^'
  let characters := if negated then characters.tail else characters
  let dashes := characters.takeWhile (· == '-')
  let characters := characters.drop dashes.length
  let items := dashes.map fun _ ↦ SetExpr.range '-'.toNat '-'.toNat
  match items, characters with
  | _, [] => none
  | [], ']' :: rest =>
      if rest.isEmpty then none else some (⟨negated, [.range ']'.toNat ']'.toNat], none⟩, rest)
  | items, rest => some (⟨negated, items, none⟩, rest)

/-- Reads a set named inside `[:` and `:]`, if one stands here. -/
def readNamedSet? : List Char → Option (SetExpr × List Char)
  | '[' :: ':' :: rest =>
      let negated := rest.head? == some '^'
      let rest := if negated then rest.tail else rest
      let name := rest.takeWhile (· != ':')
      match rest.drop name.length with
      | ':' :: ']' :: after =>
          (CharSet.ofAsciiName? (String.ofList name)).map fun set ↦ (.named negated set, after)
      | _ => none
  | _ => none

def readBracketAtom : List Char → Except ReadFault (Atom × List Char)
  | [] => .error .malformed
  | '\\' :: rest => readEscape rest
  | character :: rest => .ok (.char character, rest)

/-- An atom as an item of a bracket; conditions on the position have no place there. -/
def Atom.toItem? : Atom → Option SetExpr
  | .char character => some (.range character.toNat character.toNat)
  | .fixed set => some (.fixed set)
  | .anchor _ => none

/-- The range between two atoms, which must both be characters, in ascending order. -/
def Atom.toRange? : Atom → Atom → Option SetExpr
  | .char low, .char high =>
      if low ≤ high then some (.range low.toNat high.toNat) else none
  | _, _ => none

/-- Reads an atom or a range of a bracket. A dash before the closing bracket or before another
dash makes no range. -/
def readBracketItem (characters : List Char) : Except ReadFault (SetExpr × List Char) := do
  let (first, rest) ← readBracketAtom characters
  match rest with
  | [] => .error .malformed
  | '-' :: ']' :: _ => return (← required first.toItem?, rest)
  | '-' :: '-' :: _ => return (← required first.toItem?, rest)
  | '-' :: afterDash =>
      let (second, after) ← readBracketAtom afterDash
      return (← required (first.toRange? second), after)
  | _ => return (← required first.toItem?, rest)

/-- Reads the rest of a bracket inside the given outer brackets, innermost first. -/
def readBracketFrom : Nat → List OpenBracket → OpenBracket → List Char →
    Except ReadFault (SetExpr × List Char)
  | 0, _, _, _ => .error .malformed
  | fuel + 1, outer, level, characters =>
      match characters with
      | [] => .error .malformed
      | '[' :: rest =>
          match readNamedSet? characters with
          | some (set, after) => readBracketFrom fuel outer (level.add set) after
          | none =>
              match openBracket rest with
              | some (inner, after) => readBracketFrom fuel (level :: outer) inner after
              | none => .error .malformed
      | ']' :: rest =>
          match outer with
          | [] => .ok (level.close, rest)
          | parent :: others => readBracketFrom fuel others (parent.add level.close) rest
      | '&' :: '&' :: rest => readBracketFrom fuel outer (level.operate .intersection) rest
      | '-' :: '-' :: rest => readBracketFrom fuel outer (level.operate .difference) rest
      | '~' :: '~' :: rest => readBracketFrom fuel outer (level.operate .symmetricDifference) rest
      | _ =>
          match readBracketItem characters with
          | .ok (item, after) => readBracketFrom fuel outer (level.add item) after
          | .error fault => .error fault

def readBracket (characters : List Char) : Except ReadFault (SetExpr × List Char) := do
  let (level, rest) ← required (openBracket characters)
  readBracketFrom (rest.length + 1) [] level rest

/-- Reads a number below `2 ^ 32`, with blank characters allowed on both sides. -/
def readCount (characters : List Char) : Option (Nat × List Char) := do
  let characters := characters.dropWhile CharSet.blank.contains
  let digits := characters.takeWhile fun character ↦ (Digits.digit? character).isSome
  let value ← Digits.number? digits
  if value < Nat.pow 2 32 then
    some (value, (characters.drop digits.length).dropWhile CharSet.blank.contains)
  else none

/-- Drops the question mark that makes a repetition prefer fewer turns. -/
def dropLazyMark : List Char → List Char
  | '?' :: rest => rest
  | rest => rest

def readBounds (characters : List Char) : Option ((Nat × Option Nat) × List Char) := do
  let (least, rest) ← readCount characters
  match rest with
  | '\x7d' :: after => some ((least, some least), dropLazyMark after)
  | ',' :: '\x7d' :: after => some ((least, none), dropLazyMark after)
  | ',' :: rest =>
      let (most, rest) ← readCount rest
      match rest with
      | '\x7d' :: after =>
          if least ≤ most then some ((least, some most), dropLazyMark after) else none
      | _ => none
  | _ => none

/-- Repeats the last part of a branch, the parts being in reverse; there must be one, and it must
not be a change of flags. -/
def repeatLast (least : Nat) (most : Option Nat) : List Expr → Option (List Expr)
  | [] => none
  | .empty :: _ => none
  | .flags _ :: _ => none
  | part :: parts => some (.repeated part least most :: parts)

/-! ## Groups -/

def Flag.ofChar : Char → Except ReadFault Flag
  | 'i' => .ok .caseless
  | 'm' => .ok .multiLine
  | 's' => .ok .dotAll
  | 'U' => .ok .swapGreed
  | 'x' => .error .foreign
  | 'u' => .error .foreign
  | 'R' => .error .foreign
  | _ => .error .malformed

/-- Reads flag letters up to `:` or `)`, which stays. Each flag may occur once, and a single dash
switches off the flags after it, of which there must be one. -/
def readFlags (change : FlagChange) (switchedOff : Bool) :
    List Char → Except ReadFault (FlagChange × List Char)
  | [] => .error .malformed
  | ':' :: rest =>
      if switchedOff && change.all (·.2) then .error .malformed else .ok (change, ':' :: rest)
  | ')' :: rest =>
      if switchedOff && change.all (·.2) then .error .malformed else .ok (change, ')' :: rest)
  | '-' :: rest => if switchedOff then .error .malformed else readFlags change true rest
  | letter :: rest =>
      match Flag.ofChar letter with
      | .error fault => .error fault
      | .ok flag =>
          if change.any (·.1 == flag) then .error .malformed
          else readFlags (change ++ [(flag, !switchedOff)]) switchedOff rest

/-- Reads the name of a group up to and including `>`. -/
def readGroupName (characters : List Char) : Option (String × List Char) :=
  let name := characters.takeWhile (· != '>')
  match name, characters.drop name.length with
  | first :: others, _ :: rest =>
      let startsName := first == '_' || CharSet.nameLetter.contains first
      let continuesName := others.all fun character ↦
        "_.[]".toList.contains character || CharSet.nameLetterOrNumber.contains character
      if startsName && continuesName then some (String.ofList name, rest) else none
  | _, _ => none

/-- What stands after an opening parenthesis: a change of flags that is closed again at once, or the
beginning of a group. -/
inductive GroupOpening where
  | flags (change : FlagChange)
  | group (captured : Bool) (change : FlagChange)
  | named (name : String)

def readGroupOpening : List Char → Except ReadFault (GroupOpening × List Char)
  | '?' :: '=' :: _ => .error .malformed
  | '?' :: '!' :: _ => .error .malformed
  | '?' :: '<' :: '=' :: _ => .error .malformed
  | '?' :: '<' :: '!' :: _ => .error .malformed
  | '?' :: 'P' :: '<' :: rest => do
      let (name, after) ← required (readGroupName rest)
      return (.named name, after)
  | '?' :: '<' :: rest => do
      let (name, after) ← required (readGroupName rest)
      return (.named name, after)
  | '?' :: rest => do
      match ← readFlags [] false rest with
      | (change, ':' :: after) => return (.group false change, after)
      | (change, ')' :: after) =>
          if change.isEmpty then .error .malformed else return (.flags change, after)
      | _ => .error .malformed
  | rest => .ok (.group true [], rest)

/-- An open group: the parts and branches of the level around it, in reverse, and its flags. -/
structure OpenGroup where
  parts : List Expr
  branches : List Expr
  captured : Bool
  change : FlagChange

/-- What has been read so far: parts and branches in reverse, and the open groups, innermost first.
-/
structure Progress where
  parts : List Expr := []
  branches : List Expr := []
  groups : List OpenGroup := []
  names : List String := []

def Progress.add (progress : Progress) (part : Expr) : Progress :=
  { progress with parts := part :: progress.parts }

def Progress.level (progress : Progress) : Expr :=
  .ofReversedBranches progress.branches (.ofReversedParts progress.parts)

def Progress.nextBranch (progress : Progress) : Progress :=
  { progress with
    parts := []
    branches := .ofReversedParts progress.parts :: progress.branches }

def Progress.openGroup (progress : Progress) (captured : Bool) (change : FlagChange) : Progress :=
  { progress with
    parts := []
    branches := []
    groups := ⟨progress.parts, progress.branches, captured, change⟩ :: progress.groups }

def Progress.closeGroup? (progress : Progress) : Option Progress :=
  match progress.groups with
  | [] => none
  | opened :: groups =>
      some { progress with
        parts := .group opened.captured opened.change progress.level :: opened.parts
        branches := opened.branches
        groups := groups }

/-- Takes up what stands after an opening parenthesis; a name may be given once. -/
def Progress.enter? (progress : Progress) : GroupOpening → Option Progress
  | .flags change => some (progress.add (.flags change))
  | .group captured change => some (progress.openGroup captured change)
  | .named name =>
      if progress.names.contains name then none
      else some ({ progress with names := name :: progress.names }.openGroup true [])

def Progress.repeat? (progress : Progress) (least : Nat) (most : Option Nat) : Option Progress :=
  (repeatLast least most progress.parts).map fun parts ↦ { progress with parts }

def Atom.toExpr : Atom → Expr
  | .char character => .char character
  | .fixed set => .fixed set
  | .anchor condition => .anchor condition

/-- Reads the next piece of a pattern, which begins with `character`. -/
def readPiece (progress : Progress) (character : Char) (rest : List Char) :
    Except ReadFault (Progress × List Char) :=
  match character with
  | '(' => do
      let (opening, after) ← readGroupOpening rest
      return (← required (progress.enter? opening), after)
  | ')' => do return (← required progress.closeGroup?, rest)
  | '|' => .ok (progress.nextBranch, rest)
  | '[' => do
      let (set, after) ← readBracket rest
      return (progress.add (.bracket set), after)
  | '?' => do return (← required (progress.repeat? 0 (some 1)), dropLazyMark rest)
  | '*' => do return (← required (progress.repeat? 0 none), dropLazyMark rest)
  | '+' => do return (← required (progress.repeat? 1 none), dropLazyMark rest)
  | '\x7b' => do
      let ((least, most), after) ← required (readBounds rest)
      return (← required (progress.repeat? least most), after)
  | '\\' => do
      let (atom, after) ← readEscape rest
      return (progress.add atom.toExpr, after)
  | '.' => .ok (progress.add .dot, rest)
  | '^' => .ok (progress.add .caret, rest)
  | '$' => .ok (progress.add .dollar, rest)
  | _ => .ok (progress.add (.char character), rest)

def readFrom : Nat → Progress → List Char → Except ReadFault Expr
  | _, progress, [] =>
      if progress.groups.isEmpty then .ok progress.level else .error .malformed
  | 0, _, _ => .error .malformed
  | fuel + 1, progress, character :: rest =>
      match readPiece progress character rest with
      | .error fault => .error fault
      | .ok (progress, after) => readFrom fuel progress after

/-- The tree of a pattern, which must not be too high. -/
def read (source : String) : Except ReadFault Expr :=
  match readFrom source.toList.length {} source.toList with
  | .error fault => .error fault
  | .ok expr => if expr.height ≤ heightLimit then .ok expr else .error .malformed

end RuleCheck.Pattern
