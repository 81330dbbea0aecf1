import RuleCheck.Binary64.Basic

/-!
# JSON data

The tree of a JSON text. Whole numbers that fit in 64 bits, signed or not, are kept exactly; all
other numbers are held in double precision. Objects keep their members as written, repeated names
included.
-/

namespace RuleCheck

/-- Why a text is not the JSON that was asked for. A malformed one is no JSON, or goes past a limit.
-/
inductive JsonFault where
  | endOfText
  | malformed
  | wrongShape
deriving DecidableEq

/-- A number of a JSON text. Whole numbers lie from `-2 ^ 63` to `2 ^ 64 - 1`. -/
inductive JsonNumber where
  | whole (value : Int)
  | float (value : Binary64)
deriving DecidableEq

/-- A JSON tree; the members of an object are in the order written. -/
inductive Json where
  | null
  | bool (value : Bool)
  | number (value : JsonNumber)
  | text (value : String)
  | array (items : List Json)
  | object (members : List (String × Json))

end RuleCheck
