import Statechart.Assoc

/-!
# Definitions of state machines

What is declared about a machine before anything is looked up: a tree of states, each with the
transitions, actions and services written on it. Implementations are named or inline; an inline
one has no name and is never tracked.
-/

namespace Statechart

/-! ## 1. Kinds of states -/

/-- What a state may hold and how it is entered. -/
inductive StateKind
  | atomic
  | compound
  | parallel
  | final
  | history
deriving DecidableEq, Repr

namespace StateKind

/-- The word for a kind. -/
def word : StateKind → String
  | atomic => "atomic"
  | compound => "compound"
  | parallel => "parallel"
  | final => "final"
  | history => "history"

/-- All kinds. -/
def all : List StateKind := [atomic, compound, parallel, final, history]

/-- The kind a word stands for. -/
def ofWord? (word : String) : Option StateKind := all.find? fun k => k.word == word

theorem ofWord?_word (k : StateKind) : ofWord? k.word = some k := by cases k <;> rfl

theorem word_injective {k k' : StateKind} (h : k.word = k'.word) : k = k' := by
  have hk := ofWord?_word k
  rw [h, ofWord?_word k'] at hk
  exact (Option.some.inj hk).symm

/-- Kinds under which no state may stand. -/
def isLeaf : StateKind → Bool
  | final | history => true
  | _ => false

end StateKind

/-- How much of a former configuration a history state restores. -/
inductive HistoryDepth
  | shallow
  | deep
deriving DecidableEq, Repr

namespace HistoryDepth

/-- The word for a depth. -/
def word : HistoryDepth → String
  | shallow => "shallow"
  | deep => "deep"

end HistoryDepth

/-! ## 2. References and actions -/

/-- A guard, service or activity: by name, or written in place. -/
inductive Ref
  | named (name : String)
  | inline
deriving DecidableEq, Repr

namespace Ref

/-- The name, where there is one. -/
def name? : Ref → Option String
  | named name => some name
  | inline => none

end Ref

mutual

/-- Something that is run on entry, on exit or with a transition. -/
inductive Action
  /-- An action known by its name. -/
  | named (name : String)
  /-- An action written in place. -/
  | inline
  /-- An action that the runtime supplies. -/
  | builtin (name : String)
  /-- The first branch whose guard holds. -/
  | choose (branches : List Branch)
deriving Repr

/-- One branch of a choice; without a guard it always holds. -/
inductive Branch
  | mk (cond : Option Ref) (actions : List Action)
deriving Repr

end

/-- The type that actions of the runtime start with, and that names of users may not. -/
def reservedStart : String := "xstate."

/-! ## 3. Transitions, services, states -/

/-- A transition as declared: its targets are texts still to be looked up. -/
structure TransitionDecl where
  targets : List String := []
  cond : Option Ref := none
  actions : List Action := []
  /-- Whether the source stays active; `none` leaves it to the targets. -/
  internal : Option Bool := none
deriving Repr

/-- A service that runs while a state is active. -/
structure InvokeDecl where
  src : Ref := .inline
  id : Option String := none
  onDone : List TransitionDecl := []
  onError : List TransitionDecl := []
  autoForward : Bool := false
deriving Repr

/-- What is declared on one state, its children apart. -/
structure StateDecl where
  id : Option String := none
  kind : Option StateKind := none
  initial : Option String := none
  on : Assoc (List TransitionDecl) := []
  always : List TransitionDecl := []
  after : Assoc (List TransitionDecl) := []
  onDone : List TransitionDecl := []
  invoke : List InvokeDecl := []
  entry : List Action := []
  exit : List Action := []
  activities : List Ref := []
  history : Option HistoryDepth := none
  /-- Where a history state leads while there is nothing to restore. -/
  target : Option String := none
deriving Repr

/-- A state with the states below it, under their keys. -/
inductive StateTree
  | state (decl : StateDecl) (children : List (String × StateTree))
deriving Repr

namespace StateTree

/-- What is declared on the topmost state. -/
def decl : StateTree → StateDecl
  | state d _ => d

/-- The states right below the topmost one. -/
def children : StateTree → Assoc StateTree
  | state _ cs => cs

@[simp] theorem decl_state (d : StateDecl) (cs : Assoc StateTree) : (state d cs).decl = d := rfl

@[simp] theorem children_state (d : StateDecl) (cs : Assoc StateTree) :
    (state d cs).children = cs := rfl

/-- A state about which nothing is declared. -/
def empty : StateTree := state {} []

/-- The declared kind; without one a state with children is compound and any other is atomic. -/
def kind (t : StateTree) : StateKind :=
  match t.decl.kind with
  | some k => k
  | none => if t.children.isEmpty then .atomic else .compound

mutual

/-- The number of states of a tree. -/
def size : StateTree → Nat
  | state _ cs => 1 + sizeAll cs

/-- The number of states of some trees together. -/
def sizeAll : List (String × StateTree) → Nat
  | [] => 0
  | (_, t) :: rest => size t + sizeAll rest

end

theorem size_pos (t : StateTree) : 0 < t.size := by
  cases t; simp only [size]; omega

mutual

/-- The keys of the children are distinct, and so are those of events and delays, at every state
of the tree. Reading and building promise it. -/
def KeysDistinct : StateTree → Prop
  | state d cs =>
    Assoc.Distinct cs ∧ Assoc.Distinct d.on ∧ Assoc.Distinct d.after ∧ KeysDistinctAll cs

/-- The keys are distinct in each of some trees. -/
def KeysDistinctAll : List (String × StateTree) → Prop
  | [] => True
  | (_, t) :: rest => KeysDistinct t ∧ KeysDistinctAll rest

end

end StateTree

end Statechart
