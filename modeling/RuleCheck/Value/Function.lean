/-!
# Functions as values

A function is known by its data: two functions are the same exactly when their data agree. What a
function of the host program does is not recorded here; its code number stands for it, and the
host is asked when it is called.

A test made from a predicate carries the clauses from which its diagnostics are worded. Clauses
may in turn hold functions, so the two types are defined together.
-/

namespace RuleCheck

/-- What decides a made test: one of the library's own predicates, or one of the host program. -/
inductive Predicate where
  | kind
  | equal
  | notEqual
  | range
  | pattern
  | host (code : Nat)
deriving DecidableEq

mutual

/-- A function value. The body of a typed test belongs to the host program. The serial number of a
made test tells apart the tests that were made at run time; the library's own tests have none. -/
inductive Function where
  | host (code : Nat) (name : Option String)
  | typed (code : Nat) (name : String)
  | made (serial : Option Nat) (name : String) (predicate : Predicate) (clauses : Clauses)
  | kindName

/-- The wording of a generated diagnostic: what the value should have been, and final clauses, the
last one outermost. -/
inductive Clauses where
  | should (text : String)
  | thenText (clauses : Clauses) (text : String)
  | thenComputed (clauses : Clauses) (function : Function)

end

deriving instance DecidableEq for Function, Clauses

def Function.name? : Function → Option String
  | .host _ name => name
  | .typed _ name => some name
  | .made _ name _ _ => some name
  | .kindName => none

/-- How a function is shown for inspection. -/
def Function.describe (function : Function) : String :=
  match function.name? with
  | some name => "Function(" ++ name ++ ")"
  | none => "Function"

/-- A clause after the compared value of a generated diagnostic: a text, or a function of the
compared value and the other one. -/
inductive FinalClause where
  | text (text : String)
  | computed (function : Function)
deriving DecidableEq

namespace Clauses

def shouldText : Clauses → String
  | .should text => text
  | .thenText clauses _ => clauses.shouldText
  | .thenComputed clauses _ => clauses.shouldText

def finals : Clauses → List FinalClause
  | .should _ => []
  | .thenText clauses text => clauses.finals ++ [.text text]
  | .thenComputed clauses function => clauses.finals ++ [.computed function]

def add (clauses : Clauses) : FinalClause → Clauses
  | .text text => clauses.thenText text
  | .computed function => clauses.thenComputed function

@[simp] theorem shouldText_add (clauses : Clauses) (final : FinalClause) :
    (clauses.add final).shouldText = clauses.shouldText := by
  cases final <;> rfl

@[simp] theorem finals_add (clauses : Clauses) (final : FinalClause) :
    (clauses.add final).finals = clauses.finals ++ [final] := by
  cases final <;> rfl

end Clauses

end RuleCheck
