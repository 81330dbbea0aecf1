/-!
# Kinds of values

Every value is of exactly one of fourteen kinds. Kinds have names, which rules use to ask for
them.
-/

namespace RuleCheck

/-- The kinds of values. An integer is any number without a fractional part, and argument lists have
a kind of their own only where they are told apart from objects. -/
inductive Kind where
  | integer
  | float
  | nan
  | infinity
  | string
  | boolean
  | null
  | undefined
  | array
  | object
  | arguments
  | function
  | regex
  | date
deriving DecidableEq

structure UnknownKind where
  name : String
deriving DecidableEq

namespace Kind

def all : List Kind :=
  [.integer, .float, .nan, .infinity, .string, .boolean, .null, .undefined, .array, .object,
    .arguments, .function, .regex, .date]

def name : Kind → String
  | .integer => "integer"
  | .float => "float"
  | .nan => "nan"
  | .infinity => "infinity"
  | .string => "string"
  | .boolean => "boolean"
  | .null => "null"
  | .undefined => "undefined"
  | .array => "array"
  | .object => "object"
  | .arguments => "arguments"
  | .function => "function"
  | .regex => "regex"
  | .date => "date"

def ofName? (name : String) : Except UnknownKind Kind :=
  match all.find? fun kind ↦ kind.name == name with
  | some kind => .ok kind
  | none => .error ⟨name⟩

/-- Different kinds have different names. -/
theorem name_injective {left right : Kind} (name_eq : left.name = right.name) : left = right := by
  revert name_eq
  cases left <;> cases right <;> decide

end Kind

def UnknownKind.message (fault : UnknownKind) : String :=
  "unknown kind: " ++ fault.name

end RuleCheck
