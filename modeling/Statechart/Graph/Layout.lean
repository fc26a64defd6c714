import Statechart.Definition
import Statechart.Text.Dotted

/-!
# Layouts

A layout numbers the states of a tree in definition order: a state comes before the states below
it, and these come in the order in which they are written. The states below a state are therefore
the run of deeper places right after it. Targets are texts that lead to a place, by id, from the
source or from its parent.
-/

namespace Statechart

/-! ## 1. Places -/

/-- One state at its place in the tree. -/
structure Place where
  id : String
  key : String
  /-- The keys from the root down; the root's is empty. -/
  path : List String
  kind : StateKind
  parent : Option Nat
  /-- The numbers of the children under their keys. -/
  states : Assoc Nat
  initial : Option Nat
  /-- Whether the id is written down and not derived from the path. -/
  explicitId : Bool
deriving Repr

namespace Place

/-- The path as a dotted text; the root's is empty. -/
def dotted (p : Place) : String := Dotted.join p.path

/-- How many steps the place lies below the root. -/
def depth (p : Place) : Nat := p.path.length

end Place

/-- The numbered states of a tree and the ids under which they are known. -/
structure Layout where
  places : List Place
  ids : Assoc Nat
deriving Repr

namespace Layout

/-! ## 2. Finding places -/

/-- The number of the child of `i` under `key`; an empty key names no state. -/
def child? (l : Layout) (i : Nat) (key : String) : Option Nat :=
  if key = "" then none else (l.places[i]?).bind fun p => p.states.lookup key

/-- Follows some keys downwards from `i`. -/
def descend? (l : Layout) (i : Nat) : List String → Option Nat
  | [] => some i
  | key :: keys => (l.child? i key).bind fun j => l.descend? j keys

@[simp] theorem descend?_nil (l : Layout) (i : Nat) : l.descend? i [] = some i := rfl

/-- The place of an id, written or derived. -/
def byId? (l : Layout) (id : String) : Option Nat := l.ids.lookup id

/-- The place at the end of a path from the root. -/
def byPath? (l : Layout) (path : List String) : Option Nat := l.descend? 0 path

/-- The place that a target written on `source` names. After `#` stands an id, or an id without a
dot and a path below its place; after a leading dot stands a path below the source; any other
target is a path below the source's parent, or below the root where the source has none. -/
def resolve? (l : Layout) (source : Nat) (target : String) : Option Nat :=
  match Dotted.uncons? target with
  | some ('#', reference) =>
    (l.byId? reference).or <|
      match Dotted.segments reference with
      | [] => none
      | head :: keys => (l.byId? head).bind fun i => l.descend? i keys
  | some ('.', relative) => l.descend? source (Dotted.segments relative)
  | _ =>
    let base := ((l.places[source]?).bind Place.parent).getD source
    l.descend? base (Dotted.segments target)

/-! ## 3. Below and above a place -/

/-- `i` and the states below it, in definition order: the places after `i` up to the first that
lies no deeper. -/
def below (l : Layout) (i : Nat) : List Nat :=
  match l.places[i]? with
  | none => []
  | some p =>
    i :: (List.range' (i + 1) ((l.places.drop (i + 1)).takeWhile fun q => p.depth < q.depth).length)

/-- The topmost place above `i`. Parents come before their children, and only such links are
followed. -/
def rootOf (l : Layout) (i : Nat) : Nat :=
  match (l.places[i]?).bind Place.parent with
  | none => i
  | some p => if p < i then l.rootOf p else i
termination_by i

/-- The dotted paths of `i` and the states below it; the root has none. -/
def paths (l : Layout) (i : Nat) : List String :=
  ((l.below i).filterMap fun j => l.places[j]?).filterMap fun p =>
    if p.path.isEmpty then none else some p.dotted

end Layout

end Statechart
