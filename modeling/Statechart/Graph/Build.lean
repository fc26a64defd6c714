import Statechart.Graph.Basic
import Statechart.Graph.Fault

/-!
# From definitions to graphs

First every state gets its number and its id, which may show that the tree is malformed; then each
target is looked up. The first fault in definition order is reported: of the ids before those of
the targets, and at one state first its kind, then its id, then its children, then the initial
state it names.
-/

namespace Statechart

/-! ## 1. Names of states -/

/-- The key of a root without an id. -/
def anonymousRoot : String := "(machine)"

namespace StateTree

/-- The key of the topmost state: its id, where one is written. -/
def rootKey (t : StateTree) : String := t.decl.id.getD anonymousRoot

/-- The id a state has by its path. -/
def derivedId (rootKey : String) (path : List String) : String := Dotted.join (rootKey :: path)

/-- The id of a state: the written one, or else the one it has by its path. -/
def idAt (rootKey : String) (path : List String) (t : StateTree) : String :=
  t.decl.id.getD (derivedId rootKey path)

/-! ## 2. Numbers -/

/-- The numbers of some siblings when the first one gets `next`. -/
def numberSiblings (next : Nat) : List (String × StateTree) → Assoc Nat
  | [] => []
  | (key, t) :: rest => (key, next) :: numberSiblings (next + t.size) rest

/-- The initial child of a state: for a compound one the child it names, or else the first. -/
def initialOf (kind : StateKind) (named : Option String) (states : Assoc Nat) : Option Nat :=
  if kind = .compound then
    match named with
    | some key => states.lookup key
    | none => states.head?.map Prod.snd
  else none

/-- The place of a state that gets the number `i`. -/
def placeAt (rootKey : String) (i : Nat) (path : List String) (parent : Option Nat)
    (t : StateTree) : Place :=
  let states := numberSiblings (i + 1) t.children
  { id := t.idAt rootKey path
    key := path.getLastD rootKey
    path
    kind := t.kind
    parent
    states
    initial := initialOf t.kind t.decl.initial states
    explicitId := t.decl.id.isSome }

mutual

/-- The places of a tree with what is declared at them, in definition order, when its topmost
state gets the number `i`. -/
def placesFrom (rootKey : String) (i : Nat) (path : List String) (parent : Option Nat) :
    StateTree → List (Place × StateDecl)
  | state d cs =>
    (placeAt rootKey i path parent (state d cs), d) :: placesOfAll rootKey (i + 1) path i cs

/-- The places of the trees below a state, when the first one gets the number `next`. -/
def placesOfAll (rootKey : String) (next : Nat) (path : List String) (parent : Nat) :
    List (String × StateTree) → List (Place × StateDecl)
  | [] => []
  | (key, t) :: rest =>
    placesFrom rootKey next (path ++ [key]) (some parent) t ++
      placesOfAll rootKey (next + t.size) path parent rest

end

/-- The places of a whole tree with what is declared at them. -/
def placesWithDecls (t : StateTree) : List (Place × StateDecl) :=
  placesFrom t.rootKey 0 [] none t

/-! ## 3. Ids -/

/-- Registers the id of the state numbered `i`, which must be new. A derived id stays known beside
a written one, unless it already stands for another state. -/
def registerAt (rootKey : String) (i : Nat) (path : List String) (t : StateTree)
    (ids : Assoc Nat) : Except BuildError (Assoc Nat) :=
  let id := t.idAt rootKey path
  if (ids.lookup id).isSome then .error (.duplicateId id)
  else
    let ids := Assoc.put id i ids
    let derived := derivedId rootKey path
    if (ids.lookup derived).isSome then .ok ids else .ok (Assoc.put derived i ids)

/-- A compound state that names its initial child has such a child. -/
def checkInitial (rootKey : String) (path : List String) (t : StateTree) : Except BuildError Unit :=
  match t.decl.initial with
  | some key =>
    if t.kind = .compound && (t.children.lookup key).isNone then
      .error (.unknownInitial (t.idAt rootKey path) key)
    else .ok ()
  | none => .ok ()

/-- A state whose kind allows no children has none. -/
def checkLeaf (rootKey : String) (path : List String) (t : StateTree) : Except BuildError Unit :=
  if t.kind.isLeaf && !t.children.isEmpty then
    .error (.unexpectedChildren (t.idAt rootKey path) t.kind)
  else .ok ()

mutual

/-- Registers the ids of a tree whose topmost state gets the number `i`. -/
def register (rootKey : String) (i : Nat) (path : List String) (ids : Assoc Nat) :
    StateTree → Except BuildError (Assoc Nat)
  | state d cs => do
    checkLeaf rootKey path (state d cs)
    let ids ← registerAt rootKey i path (state d cs) ids
    let ids ← registerAll rootKey (i + 1) path ids cs
    checkInitial rootKey path (state d cs)
    return ids

/-- Registers the ids of the trees below a state, when the first one gets the number `next`. -/
def registerAll (rootKey : String) (next : Nat) (path : List String) (ids : Assoc Nat) :
    List (String × StateTree) → Except BuildError (Assoc Nat)
  | [] => .ok ids
  | (key, t) :: rest => do
    let ids ← register rootKey next (path ++ [key]) ids t
    registerAll rootKey (next + t.size) path ids rest

end

/-- The layout of a tree. -/
def layout? (t : StateTree) : Except BuildError Layout := do
  let ids ← register t.rootKey 0 [] [] t
  return ⟨t.placesWithDecls.map Prod.fst, ids⟩

end StateTree

/-! ## 4. Transitions -/

namespace InvokeDecl

/-- The id of a service: the written one, else the name of the service, else one derived from the
state and the position among its services. -/
def idAt (state : String) (position : Nat) (i : InvokeDecl) : String :=
  match i.id, i.src with
  | some id, _ => id
  | none, .named name => name
  | none, .inline => state ++ ":invocation[" ++ toString position ++ "]"

/-- The transitions of a service with the events they wait for. -/
def transitions (id : String) (i : InvokeDecl) : List (Event × TransitionDecl) :=
  i.onDone.map (Event.doneInvoke id, ·) ++ i.onError.map (Event.errorInvoke id, ·)

end InvokeDecl

namespace StateDecl

/-- The services of the state of the given id, with their ids. -/
def services (state : String) (d : StateDecl) : List (String × InvokeDecl) :=
  d.invoke.zipIdx.map fun (i, position) => (i.idAt state position, i)

/-- The transitions of the state of the given id with the events they wait for, in order. -/
def transitions (state : String) (d : StateDecl) : List (Event × TransitionDecl) :=
  (d.on.flatMap fun (event, ts) => ts.map (Event.named event, ·)) ++
  d.always.map (Event.always, ·) ++
  (d.after.flatMap fun (delay, ts) => ts.map (Event.after (Delay.ofKey delay) state, ·)) ++
  d.onDone.map (Event.doneState state, ·) ++
  (d.services state).flatMap fun (id, i) => i.transitions id

end StateDecl

namespace TransitionDecl

/-- Whether the source stays active: as written, or else where every target starts with a dot,
which holds of a transition that leads nowhere. -/
def staysInside (t : TransitionDecl) : Bool :=
  t.internal.getD (t.targets.all fun target => target.toList.head? == some '.')

end TransitionDecl

namespace Layout

/-- Looks the targets of one transition up; the first that names no state is reported. -/
def transition? (l : Layout) (source : Nat) (state : String) (event : Event)
    (t : TransitionDecl) : Except BuildError Transition := do
  let targets ← t.targets.mapM fun target =>
    match l.resolve? source target with
    | some i => .ok i
    | none => .error (.unresolvedTarget state event.type target)
  return { event, cond := t.cond, actions := t.actions, targets, internal := t.staysInside }

/-- Looks the default target of a history state up. Other states have none. -/
def historyTarget? (l : Layout) (source : Nat) (p : Place) (d : StateDecl) :
    Except BuildError (Option Nat) :=
  match d.target with
  | some target =>
    if p.kind = .history then
      match l.resolve? source target with
      | some i => .ok (some i)
      | none => .error (.unresolvedHistoryTarget p.id target)
    else .ok none
  | none => .ok none

/-- The node at a place. -/
def node? (l : Layout) (source : Nat) (p : Place) (d : StateDecl) : Except BuildError Node := do
  let transitions ← (d.transitions p.id).mapM fun (event, t) => l.transition? source p.id event t
  let historyTarget ← l.historyTarget? source p d
  return {
    toPlace := p
    transitions
    invocations := (d.services p.id).map fun (id, i) => ⟨id, i.src, i.autoForward⟩
    entry := d.entry
    exit := d.exit
    activities := d.activities
    history := if p.kind = .history then some (d.history.getD .shallow) else none
    historyTarget }

end Layout

/-! ## 5. Graphs -/

/-- The graph of a definition, or its first fault. -/
def Graph.ofTree? (t : StateTree) (provided : Provided) : Except BuildError Graph := do
  let layout ← t.layout?
  let nodes ← t.placesWithDecls.zipIdx.mapM fun ((p, d), i) => layout.node? i p d
  return ⟨nodes, layout.ids, provided⟩

end Statechart
