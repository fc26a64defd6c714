import Statechart.Definition

/-!
# Building definitions step by step

Each function adds one thing to a declaration and gives the new one. Writing a second transition
under the same event or delay adds it to the first; writing a second state under the same key
replaces the first in its place.
-/

namespace Statechart

/-! ## 1. Transitions -/

namespace TransitionDecl

/-- A transition to one target. -/
def leadingTo (target : String) : TransitionDecl := { targets := [target] }

/-- A transition that leads nowhere. -/
def targetless : TransitionDecl := {}

/-- One target more, for a transition into several regions. -/
def also (target : String) (t : TransitionDecl) : TransitionDecl :=
  { t with targets := t.targets ++ [target] }

/-- Sets the guard. -/
def withCond (cond : Ref) (t : TransitionDecl) : TransitionDecl := { t with cond := some cond }

/-- One action more. -/
def withAction (action : Action) (t : TransitionDecl) : TransitionDecl :=
  { t with actions := t.actions ++ [action] }

/-- Says whether the source stays active. -/
def withInternal (internal : Bool) (t : TransitionDecl) : TransitionDecl :=
  { t with internal := some internal }

end TransitionDecl

/-! ## 2. Services -/

namespace InvokeDecl

/-- The service registered under a name. -/
def service (name : String) : InvokeDecl := { src := .named name }

/-- A service written in place. -/
def inline : InvokeDecl := {}

/-- Sets the id. -/
def withId (id : String) (i : InvokeDecl) : InvokeDecl := { i with id := some id }

/-- One transition more for the time the service is done. -/
def whenDone (t : TransitionDecl) (i : InvokeDecl) : InvokeDecl :=
  { i with onDone := i.onDone ++ [t] }

/-- One transition more for the time the service fails. -/
def whenFailed (t : TransitionDecl) (i : InvokeDecl) : InvokeDecl :=
  { i with onError := i.onError ++ [t] }

end InvokeDecl

/-! ## 3. States -/

namespace StateTree

/-- Changes what is declared on the topmost state. -/
def declare (f : StateDecl → StateDecl) : StateTree → StateTree
  | state d cs => state (f d) cs

@[simp] theorem children_declare (f : StateDecl → StateDecl) (t : StateTree) :
    (t.declare f).children = t.children := by cases t; rfl

@[simp] theorem decl_declare (f : StateDecl → StateDecl) (t : StateTree) :
    (t.declare f).decl = f t.decl := by cases t; rfl

/-- A state of a declared kind. -/
def ofKind (k : StateKind) : StateTree := state { kind := some k } []

/-- Puts a state below the topmost one. -/
def withState (t : StateTree) (key : String) (child : StateTree) : StateTree :=
  state t.decl (Assoc.put key child t.children)

/-- One transition more for an event. -/
def on (event : String) (t : TransitionDecl) : StateTree → StateTree :=
  declare fun d => { d with on := Assoc.adjust event [] (· ++ [t]) d.on }

/-- One transition more for a delay. -/
def after (delay : String) (t : TransitionDecl) : StateTree → StateTree :=
  declare fun d => { d with after := Assoc.adjust delay [] (· ++ [t]) d.after }

/-- One transition more that waits for no event. -/
def always (t : TransitionDecl) : StateTree → StateTree :=
  declare fun d => { d with always := d.always ++ [t] }

/-- One transition more for the completion of the state. -/
def onDone (t : TransitionDecl) : StateTree → StateTree :=
  declare fun d => { d with onDone := d.onDone ++ [t] }

/-- One service more. -/
def invoke (i : InvokeDecl) : StateTree → StateTree :=
  declare fun d => { d with invoke := d.invoke ++ [i] }

/-- One action more on entry. -/
def entry (a : Action) : StateTree → StateTree :=
  declare fun d => { d with entry := d.entry ++ [a] }

/-- One action more on exit. -/
def exit (a : Action) : StateTree → StateTree :=
  declare fun d => { d with exit := d.exit ++ [a] }

/-- One activity more. -/
def activity (r : Ref) : StateTree → StateTree :=
  declare fun d => { d with activities := d.activities ++ [r] }

/-- Sets the id. -/
def withId (id : String) : StateTree → StateTree := declare fun d => { d with id := some id }

/-- Names the initial child. -/
def withInitial (key : String) : StateTree → StateTree :=
  declare fun d => { d with initial := some key }

/-- Makes the state a history state of the given depth. -/
def withHistory (depth : HistoryDepth) : StateTree → StateTree :=
  declare fun d => { d with kind := some .history, history := some depth }

/-- Sets the target of a history state. -/
def withTarget (target : String) : StateTree → StateTree :=
  declare fun d => { d with target := some target }

end StateTree

end Statechart
