import Statechart.Assoc
import Statechart.Number.Binary64

/-!
# Values

What a literal denotes once it has been read against a shape: plain data, with one mark for any
implementation, since what an implementation does is never known.
-/

namespace Statechart

/-- Plain data. -/
inductive Value
  | undefined
  | bool (b : Bool)
  | number (x : Binary64)
  | string (s : String)
  | array (items : List Value)
  /-- The entries have distinct keys; their order is part of the value. -/
  | object (entries : List (String × Value))
  /-- Some implementation. -/
  | function
deriving Repr

namespace Value

/-- The text of a string. -/
def asString? : Value → Option String
  | string s => some s
  | _ => none

/-- Whether the value is a string. -/
def isString (v : Value) : Bool := v.asString?.isSome

/-- The entries of an object. -/
def entries? : Value → Option (Assoc Value)
  | object entries => some entries
  | _ => none

/-- The value under a key of an object. -/
def get? (v : Value) (key : String) : Option Value := v.entries?.bind fun es => es.lookup key

end Value

end Statechart
