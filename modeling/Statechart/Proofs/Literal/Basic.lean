import Statechart.Proofs.Expression
import Statechart.Proofs.Graph.Located
import Statechart.Scope

/-!
# Definitions written as literals

A state tree is written as an object with one entry for each field that holds something.
Transitions and services are objects, references by name are strings, and what is written in place
is a function. An action of the runtime is an object with its type, and a choice is a call, by the
name under which the file imports the creator of choices. Not every tree can be written so: this
file says which ones can.
-/

namespace Statechart

/-! ## 1. Actions -/

/-- A reference as an expression. -/
def Ref.literal : Ref → Expression
  | named name => .string name
  | inline => .function

mutual

/-- An action as an expression, where choices are created by calls to `chooser`. -/
def Action.literal (chooser : String) : Action → Expression
  | .named name => .string name
  | .inline => .function
  | .builtin name => .ofFields [("type", some (.string name))]
  | .choose branches => .call (.name chooser) [.array (Branch.literals chooser branches)]

def Branch.literals (chooser : String) : List Branch → List Expression
  | [] => []
  | b :: rest => b.literal chooser :: Branch.literals chooser rest

/-- A branch as an expression. -/
def Branch.literal (chooser : String) : Branch → Expression
  | .mk cond actions => .ofFields [
      ("cond", cond.map Ref.literal),
      ("actions", Expression.array? (Action.literals chooser actions))]

def Action.literals (chooser : String) : List Action → List Expression
  | [] => []
  | a :: rest => a.literal chooser :: Action.literals chooser rest

end

theorem Branch.literals_eq (chooser : String) (bs : List Branch) :
    Branch.literals chooser bs = bs.map (Branch.literal chooser) := by
  induction bs with
  | nil => rfl
  | cons b rest ih => rw [Branch.literals, ih, List.map_cons]

theorem Action.literals_eq (chooser : String) (as : List Action) :
    Action.literals chooser as = as.map (Action.literal chooser) := by
  induction as with
  | nil => rfl
  | cons a rest ih => rw [Action.literals, ih, List.map_cons]

/-! ## 2. Transitions and services -/

section

variable (chooser : String)

/-- A transition as an object. -/
def TransitionDecl.literal (t : TransitionDecl) : Expression :=
  .ofFields [
    ("target", Expression.array? (t.targets.map .string)),
    ("cond", t.cond.map Ref.literal),
    ("actions", Expression.array? (t.actions.map (Action.literal chooser))),
    ("internal", t.internal.map .bool)]

/-- Some transitions under their keys. -/
def transitionMapLiteral (m : Assoc (List TransitionDecl)) : Option Expression :=
  Expression.record? (m.map fun (key, ts) => (key, .array (ts.map (TransitionDecl.literal chooser))))

/-- A service as an object. -/
def InvokeDecl.literal (i : InvokeDecl) : Expression :=
  .ofFields [
    ("src", some i.src.literal),
    ("id", i.id.map .string),
    ("onDone", Expression.array? (i.onDone.map (TransitionDecl.literal chooser))),
    ("onError", Expression.array? (i.onError.map (TransitionDecl.literal chooser))),
    ("autoForward", if i.autoForward then some (.bool true) else none)]

/-! ## 3. States -/

/-- The fields of a state, given those below it. -/
def StateDecl.literalFields (d : StateDecl) (states : Option Expression) :
    Assoc (Option Expression) :=
  [("type", d.kind.map fun k => .string k.word),
   ("id", d.id.map .string),
   ("initial", d.initial.map .string),
   ("states", states),
   ("on", transitionMapLiteral chooser d.on),
   ("always", Expression.array? (d.always.map (TransitionDecl.literal chooser))),
   ("after", transitionMapLiteral chooser d.after),
   ("onDone", Expression.array? (d.onDone.map (TransitionDecl.literal chooser))),
   ("invoke", Expression.array? (d.invoke.map (InvokeDecl.literal chooser))),
   ("entry", Expression.array? (d.entry.map (Action.literal chooser))),
   ("exit", Expression.array? (d.exit.map (Action.literal chooser))),
   ("activities", Expression.array? (d.activities.map Ref.literal)),
   ("history", d.history.map fun h => .string h.word),
   ("target", d.target.map .string)]

/-- The states below a state are written down where there are any, and below a compound state
always. -/
def StateDecl.writesStates (d : StateDecl) (cs : List (String × StateTree)) : Bool :=
  !cs.isEmpty || d.kind == some .compound

theorem StateDecl.writesStates_eq_false {d : StateDecl} {cs : List (String × StateTree)} :
    d.writesStates cs = false ↔ cs = [] ∧ d.kind ≠ some .compound := by
  unfold StateDecl.writesStates
  rw [Bool.or_eq_false_iff, Bool.not_eq_false', List.isEmpty_iff, beq_eq_false_iff_ne]

mutual

/-- **A state tree as a literal**, where choices are created by calls to `chooser`. -/
def StateTree.literal : StateTree → Expression
  | .state d cs => .ofFields (d.literalFields chooser
      (if d.writesStates cs then some (.record (StateTree.literals cs)) else none))

def StateTree.literals : List (String × StateTree) → Assoc Expression
  | [] => []
  | (key, t) :: rest => (key, t.literal) :: StateTree.literals rest

end

theorem StateTree.literals_eq (cs : List (String × StateTree)) :
    StateTree.literals chooser cs = cs.map fun (key, t) => (key, t.literal chooser) := by
  induction cs with
  | nil => rfl
  | cons entry rest ih =>
    obtain ⟨key, t⟩ := entry
    rw [StateTree.literals, ih, List.map_cons]

end

/-! ## 4. What can be written -/

/-- The name is that under which the file imports the creator of choices from an action module. -/
def Context.ImportsChoose (cx : Context) (chooser : String) : Prop :=
  ∃ module, cx.scope.imported? chooser = some (module, .named "choose") ∧
    cx.settings.isActionModule module = true

section

variable (cx : Context) (chooser : String)

/-- **The action can be written**: those of the runtime are named as such and are no choices, and
choices can be created. -/
inductive Action.Expressible : Action → Prop
  | named (name : String) : Expressible (.named name)
  | inline : Expressible .inline
  | builtin {name : String} (hstart : reservedStart.toList <+: name.toList)
      (hchoose : name ≠ "xstate.choose") : Expressible (.builtin name)
  | choose {branches : List Branch} (hchooser : cx.ImportsChoose chooser)
      (h : ∀ cond actions, .mk cond actions ∈ branches → ∀ a ∈ actions, Expressible a) :
      Expressible (.choose branches)

/-- The actions of the transition can be written. -/
def TransitionDecl.Expressible (t : TransitionDecl) : Prop :=
  ∀ a ∈ t.actions, a.Expressible cx chooser

/-- **What is declared on a state above those of `cs` can be written.** -/
structure StateDecl.Expressible (d : StateDecl) (cs : Assoc StateTree) : Prop where
  /-- Final, history and atomic states have no states below them. -/
  leaf : d.kind = some .final ∨ d.kind = some .history ∨ d.kind = some .atomic → cs = []
  /-- Only a compound state names an initial one. -/
  initial : d.initial.isSome → d.kind = some .compound ∨ d.kind = none ∧ cs ≠ []
  history : d.history.isSome ↔ d.kind = some .history
  target : d.target.isSome → d.kind = some .history
  entry : ∀ a ∈ d.entry, a.Expressible cx chooser
  exit : ∀ a ∈ d.exit, a.Expressible cx chooser
  on : ∀ event ts, (event, ts) ∈ d.on → ∀ t ∈ ts, t.Expressible cx chooser
  always : ∀ t ∈ d.always, t.Expressible cx chooser
  after : ∀ delay ts, (delay, ts) ∈ d.after → ∀ t ∈ ts, t.Expressible cx chooser
  onDone : ∀ t ∈ d.onDone, t.Expressible cx chooser
  invoke : ∀ i ∈ d.invoke, (∀ t ∈ i.onDone, t.Expressible cx chooser) ∧
    ∀ t ∈ i.onError, t.Expressible cx chooser

/-- **The tree can be written.** -/
def StateTree.Expressible (t : StateTree) : Prop :=
  t.Everywhere fun d cs => d.Expressible cx chooser cs

end

section

variable {cx : Context} {chooser : String} {d : StateDecl} {cs : Assoc StateTree}

theorem StateDecl.Expressible.initial_eq_none (hd : d.Expressible cx chooser cs) (hkind : d.kind ≠ some .compound)
    (hcs : d.kind = none → cs = []) : d.initial = none := by
  cases hi : d.initial with
  | none => rfl
  | some child =>
    rcases hd.initial (by rw [hi]; rfl) with h | ⟨h, hne⟩
    · exact absurd h hkind
    · exact absurd (hcs h) hne

theorem StateDecl.Expressible.history_eq_none (hd : d.Expressible cx chooser cs) (hkind : d.kind ≠ some .history) :
    d.history = none := by
  cases hh : d.history with
  | none => rfl
  | some depth => exact absurd (hd.history.1 (by rw [hh]; rfl)) hkind

theorem StateDecl.Expressible.target_eq_none (hd : d.Expressible cx chooser cs) (hkind : d.kind ≠ some .history) :
    d.target = none := by
  cases ht : d.target with
  | none => rfl
  | some target => exact absurd (hd.target (by rw [ht]; rfl)) hkind

end

end Statechart
