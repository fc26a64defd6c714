import Statechart.Shape.Read
import Statechart.Text.Dotted

/-!
# Obstacles

The first construct in an expression that can never be read, with the keys and positions that lead
to it. It explains why a definition is not accepted.
-/

namespace Statechart

/-! ## 1. Constructs -/

/-- A construct that cannot be read. -/
inductive Construct
  /-- Objects and arrays inside one another beyond the bound. -/
  | tooDeep
  | computedKey
  | spread (description : String)
  | reference (description : String)
  | call (description : String)
  | unsupported (kind : String)
deriving DecidableEq, Repr

namespace Construct

/-- The words for a construct. -/
def text : Construct → String
  | tooDeep => "nesting deeper than " ++ toString Shape.maxNesting ++ " levels"
  | computedKey => "computed property key"
  | spread d => "spread of `" ++ d ++ "`"
  | reference d => "reference to `" ++ d ++ "`, which cannot be resolved statically"
  | call d => "call to `" ++ d ++ "`"
  | unsupported kind => "unsupported " ++ Expression.spaced kind

end Construct

/-- A construct and the keys and positions that lead to it. -/
structure Obstacle where
  path : List String
  construct : Construct
deriving DecidableEq, Repr

namespace Obstacle

/-- The path as a dotted text. -/
def dotted (o : Obstacle) : String := Dotted.join o.path

/-- The words for an obstacle; the path is told only where there is one. -/
def text (o : Obstacle) : String :=
  if o.dotted.isEmpty then o.construct.text else o.construct.text ++ " at `" ++ o.dotted ++ "`"

/-- An obstacle seen from one level up. -/
def under (key : String) (o : Obstacle) : Obstacle := { o with path := key :: o.path }

/-! ## 2. The search -/

/-- The first obstacle within `levels` levels. References that lead out of sight are obstacles
unless they are allowed. Arguments of a creator of actions are looked into at its own path. -/
def findWithin (cx : Context) (allowReferences : Bool) : (levels : Nat) → Expression →
    Option Obstacle
  | 0, _ => some ⟨[], .tooDeep⟩
  | levels + 1, e =>
    match cx.scope.resolve e with
    | .object entries =>
      entries.findSome? fun entry =>
        match entry with
        | .keyed key value => (findWithin cx allowReferences levels value).map (under key)
        | .computed _ => some ⟨[], .computedKey⟩
        | .spread value => some ⟨[], .spread value.describe⟩
    | .array items =>
      items.zipIdx.findSome? fun (item, i) =>
        (findWithin cx allowReferences levels item).map (under (toString i))
    | .name n => if allowReferences then none else some ⟨[], .reference n⟩
    | .member object property =>
      if allowReferences then none
      else some ⟨[], .reference (Expression.member object property).describe⟩
    | .call callee args =>
      match cx.creator? callee with
      | some _ => args.findSome? (findWithin cx allowReferences levels)
      | none => some ⟨[], .call callee.describe⟩
    | .other kind => some ⟨[], .unsupported kind⟩
    | _ => none

/-- The first obstacle in an expression. -/
def find? (cx : Context) (allowReferences : Bool) (e : Expression) : Option Obstacle :=
  findWithin cx allowReferences (Shape.maxNesting + 1) e

end Obstacle

end Statechart
