import Statechart.Graph.Event
import Statechart.Graph.Layout
import Statechart.Provided

/-!
# Graphs

A graph is a layout whose places carry what their states do: transitions with every target looked
up, running services, actions. Places refer to each other by number.
-/

namespace Statechart

/-! ## 1. Nodes -/

/-- A transition with its targets looked up. -/
structure Transition where
  event : Event
  cond : Option Ref
  actions : List Action
  /-- Numbers of nodes; none for a transition that leads nowhere. -/
  targets : List Nat
  /-- Whether the source stays active. -/
  internal : Bool
deriving Repr

/-- A service with its id. -/
structure Invocation where
  id : String
  src : Ref
  autoForward : Bool
deriving DecidableEq, Repr

/-- A place with what its state does. -/
structure Node extends Place where
  transitions : List Transition
  invocations : List Invocation
  entry : List Action
  exit : List Action
  activities : List Ref
  history : Option HistoryDepth
  historyTarget : Option Nat
deriving Repr

/-- The nodes of a machine in definition order, the ids under which they are known, and the
implementations the machine brings. -/
structure Graph where
  nodes : List Node
  ids : Assoc Nat
  provided : Provided
deriving Repr

/-! ## 2. Arrows -/

/-- One step of the machine, from state to state. -/
structure Arrow where
  source : Nat
  target : Nat
  event : String
deriving DecidableEq, Repr

namespace Graph

/-- The places of the nodes. -/
def layout (g : Graph) : Layout := ⟨g.nodes.map Node.toPlace, g.ids⟩

@[simp] theorem places_layout (g : Graph) : g.layout.places = g.nodes.map Node.toPlace := rfl

/-- The number of nodes. -/
def size (g : Graph) : Nat := g.nodes.length

/-- The arrows of one node: one for each target of each transition. -/
def arrowsFrom (i : Nat) (n : Node) : List Arrow :=
  n.transitions.flatMap fun t => t.targets.map fun j => ⟨i, j, t.event.type⟩

/-- All arrows, in the order of nodes, transitions and targets. -/
def arrows (g : Graph) : List Arrow := g.nodes.zipIdx.flatMap fun (n, i) => arrowsFrom i n

/-- The types of the events that can lead to `i`, each once, in the order of the arrows. -/
def sources (g : Graph) (i : Nat) : List String :=
  ((g.arrows.filter fun a => a.target == i).map Arrow.event).eraseDups

end Graph

end Statechart
