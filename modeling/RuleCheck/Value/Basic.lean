import RuleCheck.Binary64.Basic
import RuleCheck.Pattern
import RuleCheck.Timestamp
import RuleCheck.Value.Function
import RuleCheck.Value.Kind

/-!
# Values

A value is any datum that a rule can speak about. Arrays, argument lists and objects are
references to cells of a store, so that values may share parts and form cycles, and two of them
can be compared by identity; all other values stand for themselves.
-/

namespace RuleCheck

structure ListRef where
  index : Nat
deriving DecidableEq

structure RecordRef where
  index : Nat
deriving DecidableEq

inductive Value where
  | undefined
  | null
  | bool (value : Bool)
  | int (value : Int64)
  | float (value : Binary64)
  | text (value : String)
  | array (ref : ListRef)
  | object (ref : RecordRef)
  | arguments (ref : ListRef)
  | function (value : Function)
  | regex (value : Pattern)
  | date (value : Timestamp)

/-- What makes a composite value the one that it is. -/
inductive Identity where
  | list (ref : ListRef)
  | record (ref : RecordRef)
deriving DecidableEq

namespace Value

instance : Inhabited Value := ⟨.undefined⟩

def isUndefined : Value → Bool
  | .undefined => true
  | _ => false

/-- The value is an array, an argument list or an object. -/
def isComposite : Value → Bool
  | .array _ => true
  | .arguments _ => true
  | .object _ => true
  | _ => false

/-- The value is neither composite nor undefined. -/
def isSimple (value : Value) : Bool :=
  !value.isComposite && !value.isUndefined

def text? : Value → Option String
  | .text value => some value
  | _ => none

def bool? : Value → Option Bool
  | .bool value => some value
  | _ => none

def function? : Value → Option Function
  | .function value => some value
  | _ => none

/-- The number in double precision, rounded if need be, if the value is a number. -/
def number? : Value → Option Binary64
  | .int value => some (.ofInt value.toInt)
  | .float value => some value
  | _ => none

/-- The list cell of an array or argument list. -/
def listRef? : Value → Option ListRef
  | .array ref => some ref
  | .arguments ref => some ref
  | _ => none

def recordRef? : Value → Option RecordRef
  | .object ref => some ref
  | _ => none

def identity? : Value → Option Identity
  | .array ref => some (.list ref)
  | .arguments ref => some (.list ref)
  | .object ref => some (.record ref)
  | _ => none

/-! ## Classification -/

def numberKind (value : Binary64) : Kind :=
  if value.isNaN then .nan
  else if value.isInfinite then .infinity
  else if value.isIntegral then .integer
  else .float

/-- The kind of a value; on request argument lists are told apart from objects. -/
def kindWith (distinguishArguments : Bool) : Value → Kind
  | .undefined => .undefined
  | .null => .null
  | .bool _ => .boolean
  | .int _ => .integer
  | .float value => numberKind value
  | .text _ => .string
  | .array _ => .array
  | .object _ => .object
  | .arguments _ => if distinguishArguments then .arguments else .object
  | .function _ => .function
  | .regex _ => .regex
  | .date _ => .date

/-- The kind of a value, an argument list counting as an object. -/
def kind (value : Value) : Kind :=
  value.kindWith false

def ofKind (kind : Kind) : Value :=
  .text kind.name

/-- A text as a value, or undefined if there is none. -/
def ofText? : Option String → Value
  | some content => .text content
  | none => .undefined

/-- An integer as a value: exact if it fits in 64 bits, otherwise rounded to double precision. -/
def ofInt (value : Int) : Value :=
  if -Int.pow 2 63 ≤ value ∧ value < Int.pow 2 63 then .int (.ofInt value) else .float (.ofInt value)

def ofNat (count : Nat) : Value :=
  .ofInt count

end Value

end RuleCheck
