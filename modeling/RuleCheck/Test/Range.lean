import RuleCheck.Value.Store

/-!
# Range bounds

A range is an object with any of four bounds. Texts compare by code points, timestamps by instant,
and any other two values as numbers in double precision; values without an order are within no
bound.
-/

namespace RuleCheck

inductive Bound where
  | min
  | max
  | less
  | more
deriving DecidableEq

namespace Bound

def keys : List String := ["min", "max", "less", "more"]

def ofKey? : String → Option Bound
  | "min" => some .min
  | "max" => some .max
  | "less" => some .less
  | "more" => some .more
  | _ => none

/-- Whether a value that compares to the bound in the given way is within it. -/
def admits : Bound → Ordering → Bool
  | .min, ordering => ordering != .lt
  | .max, ordering => ordering != .gt
  | .less, ordering => ordering == .lt
  | .more, ordering => ordering == .gt

end Bound

/-- The order of two values of one family: texts, timestamps or numbers. -/
def Value.compare? (left right : Value) : Option Ordering :=
  match left, right with
  | .text left, .text right => some (compare left right)
  | .date left, .date right => some (left.compareInstants right)
  | left, right => do (← left.number?).compare? (← right.number?)

def Bound.holds (bound : Bound) (value limit : Value) : Bool :=
  (value.compare? limit).any bound.admits

namespace Fields

/-- The first key that is no bound. -/
def unknownBound? (fields : Fields Value) : Option String :=
  fields.keys.find? fun key ↦ !Bound.keys.contains key

def boundsHold (fields : Fields Value) (value : Value) : Bool :=
  fields.entries.all fun entry ↦
    match Bound.ofKey? entry.1 with
    | some bound => bound.holds value entry.2
    | none => false

end Fields

end RuleCheck
