/-!
# Shapes

A shape says which expressions are accepted at a position. Shapes are data, and a shape that
contains itself does so through a rule, which stands for a shape by name.
-/

namespace Statechart

/-- The shapes that are referred to by name. -/
inductive Rule
  /-- A state with everything below it. -/
  | state
  /-- One action. -/
  | action
  /-- The branches of an action that chooses. -/
  | branches
deriving DecidableEq, Repr

/-- What is accepted at a position. -/
inductive Shape
  /-- A string; with a list, one of its members. -/
  | string (allowed : Option (List String))
  | bool
  | number
  | undefined
  | function
  /-- An object of the given fields. Other keys take the last shape; without one they mean
  nothing. -/
  | object (fields : List (String × Shape)) (others : Option Shape)
  /-- An array of elements of one shape. -/
  | array (element : Shape)
  /-- The first of several shapes that accepts. -/
  | oneOf (alternatives : List Shape)
  /-- A shape for a key that may be left out. -/
  | optional (inner : Shape)
  /-- Anything at all, of which nothing is kept. -/
  | ignored
  /-- The shape of a rule. -/
  | rule (r : Rule)
  /-- A call to a creator of actions. -/
  | creatorCall
  /-- An implementation: a function, a call to a creator of actions, or a reference that leads out
  of sight. -/
  | implementation
deriving Repr

namespace Shape

/-- Any string. -/
def text : Shape := string none

/-- One of some strings. -/
def oneOfTexts (allowed : List String) : Shape := string (some allowed)

/-- An object whose keys all take one shape. -/
def record (values : Shape) : Shape := object [] (some values)

/-- One thing, or an array of them. -/
def oneOrMore (element : Shape) : Shape := oneOf [element, array element]

/-- An object with a type, whose other keys are passed over. -/
def typed : Shape := object [("type", text)] (some ignored)

end Shape

end Statechart
