import Statechart.Graph.Basic
import Statechart.Graph.Targets

/-!
# Facts about a graph

What a machine refers to by name, and where: one table for each category of implementations, and a
tree that gives for every state the targets on offer and the events that can lead there.

A table is computed from the list of all mentions. A mention says that a name stands somewhere in
a state, and which events it may be run for.
-/

namespace Statechart

/-! ## 1. Mentions -/

/-- A name that stands in a state: its category, the types of the events it may be run for, and
the dotted path of the state. -/
structure Mention where
  handler : Handler
  name : String
  events : List String
  state : String
deriving DecidableEq, Repr

namespace Mention

/-- The mention of a reference; one written in place is none. -/
def ofRef (h : Handler) (events : List String) (state : String) : Ref → List Mention
  | .named name => [⟨h, name, events, state⟩]
  | .inline => []

mutual

/-- The mentions in an action: its own name, or those in the branches of a choice. -/
def ofAction (events : List String) (state : String) : Action → List Mention
  | .named name => [⟨.action, name, events, state⟩]
  | .inline => []
  | .builtin _ => []
  | .choose branches => ofBranches events state branches

/-- The mentions in the branches of a choice. -/
def ofBranches (events : List String) (state : String) : List Branch → List Mention
  | [] => []
  | b :: rest => ofBranch events state b ++ ofBranches events state rest

/-- The mentions in a branch: its guard, then its actions. -/
def ofBranch (events : List String) (state : String) : Branch → List Mention
  | .mk cond actions =>
    (match cond with
     | some c => ofRef .guard events state c
     | none => []) ++ ofActions events state actions

/-- The mentions in some actions. -/
def ofActions (events : List String) (state : String) : List Action → List Mention
  | [] => []
  | a :: rest => ofAction events state a ++ ofActions events state rest

end

/-- The mentions in a transition: guard and actions for its own event, and a named delay for the
events that lead to the state. -/
def ofTransition (incoming : List String) (state : String) (t : Transition) : List Mention :=
  (t.cond.toList.flatMap (ofRef .guard [t.event.type] state)) ++
  ofActions [t.event.type] state t.actions ++
  match t.event with
  | .after (.named name) _ => [⟨.delay, name, incoming, state⟩]
  | _ => []

/-- The mentions in a node: transitions, exit, entry, services, activities. Nothing is known of
the events for which actions on exit are run; all else that is no transition is run for the events
that lead to the state. -/
def ofNode (incoming : List String) (n : Node) : List Mention :=
  let state := n.dotted
  n.transitions.flatMap (ofTransition incoming state) ++
  ofActions [] state n.exit ++
  ofActions incoming state n.entry ++
  n.invocations.flatMap (fun i => ofRef .service incoming state i.src) ++
  n.activities.flatMap (ofRef .activity incoming state)

/-- Whether the name belongs to the runtime. -/
def isReserved (m : Mention) : Bool := reservedStart.toList.isPrefixOf m.name.toList

end Mention

/-- The mentions of names that are not the runtime's, in the order of the nodes. -/
def Graph.mentions (g : Graph) : List Mention :=
  (g.nodes.zipIdx.flatMap fun (n, i) => Mention.ofNode (g.sources i) n).filter
    fun m => !m.isReserved

/-! ## 2. Tables -/

/-- What is known of one name. -/
structure Line where
  name : String
  /-- Whether the machine brings no implementation of its own. -/
  required : Bool
  events : List String
  states : List String
deriving DecidableEq, Repr

/-- All names of one category. -/
structure Table where
  lines : List Line
  /-- Whether some line is required. -/
  required : Bool
deriving DecidableEq, Repr

namespace Table

/-- The line of a name. -/
def line? (t : Table) (name : String) : Option Line := t.lines.find? fun l => l.name == name

/-- The names in order. -/
def names (t : Table) : List String := t.lines.map Line.name

/-- The non-empty texts among some, each once. -/
def distinctNonempty (texts : List String) : List String :=
  (texts.filter fun s => s != "").eraseDups

/-- The line of a name, from the mentions of its category. -/
def lineOf (mentions : List Mention) (h : Handler) (provided : Provided) (name : String) : Line :=
  let own := mentions.filter fun m => m.name == name
  { name
    required := !provided.provides h name
    events := distinctNonempty (own.flatMap Mention.events)
    states := distinctNonempty (own.map Mention.state) }

/-- The table of a category: a line for each name mentioned, in order of first mention. -/
def ofMentions (mentions : List Mention) (provided : Provided) (h : Handler) : Table :=
  let own := mentions.filter fun m => m.handler == h
  let lines := (own.map Mention.name).eraseDups.map (lineOf own h provided)
  { lines, required := lines.any Line.required }

end Table

/-- The table of a category for a graph. -/
def Graph.table (g : Graph) (h : Handler) : Table := Table.ofMentions g.mentions g.provided h

/-! ## 3. The tree of targets and sources -/

/-- The targets on offer at a state, the events that can lead there, and the same for each child. -/
inductive StateFacts
  | state (targets sources : List String) (children : List (String × StateFacts))
deriving Repr

namespace StateFacts

/-- The targets on offer at the state. -/
def targets : StateFacts → List String
  | state ts _ _ => ts

/-- The types of the events that can lead to the state. -/
def sources : StateFacts → List String
  | state _ ss _ => ss

/-- The facts of the states right below. -/
def children : StateFacts → Assoc StateFacts
  | state _ _ cs => cs

end StateFacts

/-- The facts of the states from `i` down, as far as `height` levels below it. -/
def Graph.factsWithin (g : Graph) : (height : Nat) → (i : Nat) → StateFacts
  | 0, i => .state (g.layout.targets i) (g.sources i) []
  | height + 1, i =>
    let states := ((g.nodes[i]?).map fun n => n.states).getD []
    .state (g.layout.targets i) (g.sources i)
      (states.map fun (key, j) => (key, g.factsWithin height j))

/-- The facts of the states from `i` down. No state lies as many levels deep as there are
nodes. -/
def Graph.stateFacts (g : Graph) (i : Nat) : StateFacts := g.factsWithin g.size i

/-! ## 4. All facts -/

/-- Everything that is reported of a machine. -/
structure Facts where
  id : String
  /-- The dotted paths of all states but the root. -/
  paths : List String
  states : StateFacts
  actions : Table
  guards : Table
  services : Table
  activities : Table
  delays : Table
deriving Repr

namespace Facts

/-- The table of a category. -/
def table (f : Facts) : Handler → Table
  | .action => f.actions
  | .guard => f.guards
  | .service => f.services
  | .activity => f.activities
  | .delay => f.delays

/-- The facts of a graph, reported under `id`. -/
def ofGraph (g : Graph) (id : String) : Facts where
  id
  paths := g.layout.paths 0
  states := g.stateFacts 0
  actions := g.table .action
  guards := g.table .guard
  services := g.table .service
  activities := g.table .activity
  delays := g.table .delay

@[simp] theorem table_ofGraph (g : Graph) (id : String) (h : Handler) :
    (ofGraph g id).table h = g.table h := by cases h <;> rfl

end Facts

end Statechart
