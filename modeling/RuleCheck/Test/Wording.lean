import RuleCheck.Diagnostic

/-!
# Clauses given as data

Clauses may be given as a value: a text that says what the value should have been, or an array of
that text and, optionally, an array of final clauses, each a text or a function. Undefined counts
as no final clauses.
-/

namespace RuleCheck

/-- Why a value gives no clauses. Final clauses are counted from zero. -/
inductive ClauseFault where
  | notTextOrArray (value : Value)
  | wrongForm (value : Value)
  | finalsNotArray (value : Value)
  | notAFinal (position : Nat) (value : Value)

def ClauseFault.diagnostic : ClauseFault → Diagnostic
  | .notTextOrArray value =>
      ⟨[.text "clauses passed to make_test should be a string or an array but instead are",
        value]⟩
  | .wrongForm value =>
      ⟨[.text ("clauses passed to make_test should be [should clause, final clauses] "
        ++ "but instead are"), value]⟩
  | .finalsNotArray value =>
      ⟨[.text "final clauses passed to make_test should be an array but instead are", value]⟩
  | .notAFinal position value =>
      ⟨[.text "final clause", .ofNat position,
        .text "passed to make_test should be a string or a function but instead is", value]⟩

namespace Clauses

def finalOfValue? : Value → Option FinalClause
  | .text content => some (.text content)
  | .function function => some (.computed function)
  | _ => none

/-- Adds the final clauses that values give, counting from a position. -/
def addValues (clauses : Clauses) (position : Nat) : List Value → Except ClauseFault Clauses
  | [] => .ok clauses
  | value :: rest =>
      match finalOfValue? value with
      | some final => (clauses.add final).addValues (position + 1) rest
      | none => .error (.notAFinal position value)

/-- Adds the final clauses that one value gives together. -/
def addFinals (store : Store) (clauses : Clauses) : Value → Except ClauseFault Clauses
  | .undefined => .ok clauses
  | .array ref => clauses.addValues 0 (store.items ref)
  | value => .error (.finalsNotArray value)

def ofValue (store : Store) (value : Value) : Except ClauseFault Clauses :=
  match value with
  | .text content => .ok (.should content)
  | .array ref =>
      match store.items ref with
      | [.text content] => .ok (.should content)
      | [.text content, finals] => addFinals store (.should content) finals
      | _ => .error (.wrongForm value)
  | _ => .error (.notTextOrArray value)

end Clauses

namespace Function

def make (name : String) (predicate : Predicate) (clauses : Clauses) : StateM Store Function :=
  return .made (some (← Store.nextSerial)) name predicate clauses

/-- A test made at run time from clauses given as a value. -/
def makeOfValue (predicate : Predicate) (clauses : Value) :
    StateM Store (Except ClauseFault Function) := do
  match Clauses.ofValue (← get) clauses with
  | .ok clauses => return .ok (← make "test" predicate clauses)
  | .error fault => return .error fault

end Function

end RuleCheck
