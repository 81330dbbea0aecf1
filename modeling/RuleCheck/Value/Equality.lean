import RuleCheck.Value.Store

/-!
# Deep equality

Two values are equal if they have the same shape, composites being of one constructor with equal
members in the same places, and equal leaves. How parts are shared does not matter. Numbers are
compared by value: two integers exactly, any other two in double precision. Functions are equal
only to themselves, patterns if their texts are, and timestamps if their instants are.

The recursion is bounded by the number of cells, which no chain of different composites exceeds;
on values of which one is free of cycles the bound is never reached.
-/

namespace RuleCheck

/-- Equality of two values that are not composite. -/
def Value.sameLeaf : Value → Value → Bool
  | .undefined, .undefined => true
  | .null, .null => true
  | .bool left, .bool right => left == right
  | .int left, .int right => left == right
  | .int left, .float right => (Binary64.ofInt left.toInt).numEq right
  | .float left, .int right => left.numEq (.ofInt right.toInt)
  | .float left, .float right => left.numEq right
  | .text left, .text right => left == right
  | .function left, .function right => left == right
  | .regex left, .regex right => left.source == right.source
  | .date left, .date right => left.sameInstant right
  | _, _ => false

namespace Store

/-- Items in the same places are related, and there are equally many. -/
def itemsAgree (related : Value → Value → Bool) : List Value → List Value → Bool
  | [], [] => true
  | left :: lefts, right :: rights => related left right && itemsAgree related lefts rights
  | _, _ => false

/-- Fields with the same keys are related, and there are no others. -/
def fieldsAgree (related : Value → Value → Bool) (left right : Fields Value) : Bool :=
  left.size == right.size && left.entries.all fun entry ↦
    match right.get? entry.1 with
    | some value => related entry.2 value
    | none => false

/-- Deep equality down to a number of levels; values that go deeper are not equal. -/
def equalUpTo (store : Store) : Nat → Value → Value → Bool
  | 0, _, _ => false
  | depth + 1, .array left, .array right =>
      itemsAgree (store.equalUpTo depth) (store.items left) (store.items right)
  | depth + 1, .arguments left, .arguments right =>
      itemsAgree (store.equalUpTo depth) (store.items left) (store.items right)
  | depth + 1, .object left, .object right =>
      fieldsAgree (store.equalUpTo depth) (store.fields left) (store.fields right)
  | _ + 1, left, right => left.sameLeaf right

def equal (store : Store) (left right : Value) : Bool :=
  store.equalUpTo (store.size + 1) left right

end Store

end RuleCheck
