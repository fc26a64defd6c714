import Statechart.Graph.Layout

/-!
# Targets on offer

Every text that a transition written on a state may have as its target: the siblings by key, what
lies below them, what lies below the state itself with a dot in front, and whatever an explicit id
leads to. No strict ancestor is offered.
-/

namespace Statechart.Layout

/-! ## 1. Paths relative to a place -/

/-- The paths of the states strictly below `i`, the first `depth` keys left out. -/
def pathsBelow (l : Layout) (i depth : Nat) : List String :=
  ((l.below i).tail.filterMap fun j => l.places[j]?).map fun p => Dotted.join (p.path.drop depth)

/-- The siblings of a place, itself included, in order, and then what lies below each of them,
both read from the parent. The root has no siblings. -/
def siblingTargets (l : Layout) (p : Place) : List String :=
  match p.parent.bind fun i => l.places[i]? with
  | none => []
  | some parent =>
    parent.states.keys ++ parent.states.flatMap fun (_, i) => l.pathsBelow i parent.depth

/-- What lies below a place, with a leading dot. -/
def childTargets (l : Layout) (i : Nat) (p : Place) : List String :=
  (l.pathsBelow i p.depth).map ("." ++ ·)

/-- What an explicit id leads to: the state itself, unless it is the root, and all below it. -/
def idTargets (l : Layout) (i : Nat) (p : Place) : List String :=
  if p.explicitId then
    (if i = 0 then [] else ["#" ++ p.id]) ++ (l.pathsBelow i p.depth).map ("#" ++ p.id ++ "." ++ ·)
  else []

/-! ## 2. All of them -/

/-- The targets on offer at `i`, each once, in order of first mention. The full path of a place
that is not right below the root is no target, since it would be read from the parent. -/
def targets (l : Layout) (i : Nat) : List String :=
  match l.places[i]? with
  | none => []
  | some p =>
    let viaIds := l.places.zipIdx.flatMap fun (q, j) => l.idTargets j q
    let all := (l.siblingTargets p ++ l.childTargets i p ++ viaIds).eraseDups
    if 1 < p.depth then all.filter (· != p.dotted) else all

end Statechart.Layout
