import Statechart.Definition
import Statechart.Provided
import Statechart.Text.Dotted
import Statechart.Value.Basic

/-!
# Definitions read from values

A value describes a state tree or the provided implementations. Each position asks for a value of
some form; the first value without it is reported with the keys that lead there. Entries whose key
means nothing at their position are passed over.
-/

namespace Statechart

/-! ## 1. Misfits -/

/-- What a position asks for. -/
inductive Expectation
  | object
  | string
  | stateType
  | invokeSource
  | typedObject
  | typedAction
  | nameOrImplementation
deriving DecidableEq, Repr

namespace Expectation

/-- The words for an expectation. -/
def text : Expectation → String
  | object => "an object"
  | string => "a string"
  | stateType => "a state type"
  | invokeSource => "an invoke source"
  | typedObject => "an object with a `type`"
  | typedAction => "an action with a `type`"
  | nameOrImplementation => "a name or an implementation"

end Expectation

/-- A value that is not of the form its position asks for, and the keys and positions that lead to
it from the outermost value. -/
structure Misfit where
  path : List String
  expected : Expectation
deriving DecidableEq, Repr

namespace Misfit

/-- The path as a dotted text. -/
def dotted (m : Misfit) : String := Dotted.join m.path

/-- The words for a misfit. -/
def message (m : Misfit) : String := "expected " ++ m.expected.text ++ " at `" ++ m.dotted ++ "`"

end Misfit

namespace Value

/-- A result, or the misfit that rules it out. -/
abbrev Read (α : Type) := Except Misfit α

/-- The value at hand is not of the expected form. -/
def misfit {α : Type} (expected : Expectation) : Read α := .error ⟨[], expected⟩

/-- What is read inside the value under `key`. -/
def inside {α : Type} (key : String) (r : Read α) : Read α :=
  match r with
  | .ok a => .ok a
  | .error m => .error { m with path := key :: m.path }

/-! ## 2. Texts and references -/

/-- The text of a string. -/
def readString : Value → Read String
  | string s => .ok s
  | _ => misfit .string

/-- The entries of an object. -/
def readObject : Value → Read (Assoc Value)
  | object entries => .ok entries
  | _ => misfit .object

/-- Reads each of some items at its position, from `index` on. -/
def readItems {α : Type} (f : Value → Read α) (index : Nat) : List Value → Read (List α)
  | [] => .ok []
  | v :: rest => do
    let a ← inside (toString index) (f v)
    let as ← readItems f (index + 1) rest
    return a :: as

/-- Reads each item of an array, or the value itself as the only item. -/
def readEach {α : Type} (f : Value → Read α) : Value → Read (List α)
  | array items => readItems f 0 items
  | v => (f v).map ([·])

/-- A guard, service or activity: by name, in place, or as an object with a type. -/
def readRef : Value → Read Ref
  | string name => .ok (.named name)
  | function => .ok .inline
  | object entries =>
    match entries.lookup "type" with
    | some (string name) => .ok (.named name)
    | _ => misfit .typedObject
  | _ => misfit .nameOrImplementation

/-! ## 3. Actions -/

/-- The type of an action that chooses between branches. -/
def chooseType : String := "xstate.choose"

/-- The action of a value that is no object. -/
def readPlainAction : Value → Read Action
  | string name => .ok (.named name)
  | function => .ok .inline
  | _ => misfit .nameOrImplementation

/-- The action of an object, told by its type; the branches are those of a choice. -/
def typedAction (entries : Assoc Value) (branches : Read (List Branch)) : Read Action :=
  match entries.lookup "type" with
  | some (string kind) =>
    if kind = chooseType then branches.map .choose
    else if reservedStart.toList.isPrefixOf kind.toList then .ok (.builtin kind)
    else .ok (.named kind)
  | _ => misfit .typedAction

/-- The branch of an object: first its guard is read, then the actions. -/
def branchOf (entries : Assoc Value) (actions : Read (List Action)) : Read Branch := do
  let cond ←
    match entries.lookup "cond" with
    | some v => (inside "cond" (readRef v)).map some
    | none => .ok none
  return .mk cond (← actions)

mutual

/-- One action. -/
def readAction : Value → Read Action
  | object entries => typedAction entries (readBranchesIn entries)
  | v => readPlainAction v

/-- The branches under `conds` of an object; without them there are none. -/
def readBranchesIn : List (String × Value) → Read (List Branch)
  | [] => .ok []
  | (key, v) :: rest =>
    if key = "conds" then inside key (readBranches v) else readBranchesIn rest

/-- Some branches, or a single one. -/
def readBranches : Value → Read (List Branch)
  | array items => readBranchItems 0 items
  | object entries => (branchOf entries (readActionsIn entries)).map ([·])
  | _ => misfit .object

/-- Each of some branches at its position, from `index` on. -/
def readBranchItems (index : Nat) : List Value → Read (List Branch)
  | [] => .ok []
  | v :: rest => do
    let b ← inside (toString index) (readBranch v)
    let bs ← readBranchItems (index + 1) rest
    return b :: bs

/-- One branch. -/
def readBranch : Value → Read Branch
  | object entries => branchOf entries (readActionsIn entries)
  | _ => misfit .object

/-- The actions under `actions` of an object; without them there are none. -/
def readActionsIn : List (String × Value) → Read (List Action)
  | [] => .ok []
  | (key, v) :: rest =>
    if key = "actions" then inside key (readActions v) else readActionsIn rest

/-- Some actions, or a single one. -/
def readActions : Value → Read (List Action)
  | array items => readActionItems 0 items
  | object entries => (typedAction entries (readBranchesIn entries)).map ([·])
  | v => (readPlainAction v).map ([·])

/-- Each of some actions at its position, from `index` on. -/
def readActionItems (index : Nat) : List Value → Read (List Action)
  | [] => .ok []
  | v :: rest => do
    let a ← inside (toString index) (readAction v)
    let as ← readActionItems (index + 1) rest
    return a :: as

end

/-! ## 4. Transitions and services -/

/-- The targets of a transition: none where undefined. -/
def readTargets : Value → Read (List String)
  | undefined => .ok []
  | v => readEach readString v

/-- One entry of a transition. -/
def readTransitionEntry (t : TransitionDecl) (key : String) (v : Value) : Read TransitionDecl :=
  match key with
  | "target" => do return { t with targets := ← readTargets v }
  | "cond" => do return { t with cond := some (← readRef v) }
  | "actions" => do return { t with actions := ← readActions v }
  | "internal" => .ok { t with internal := some (match v with | bool b => b | _ => false) }
  | _ => .ok t

/-- One transition: an object, or just its targets. -/
def readTransition : Value → Read TransitionDecl
  | object entries =>
    entries.foldlM (fun t (key, v) => inside key (readTransitionEntry t key v)) {}
  | v => do return { targets := ← readTargets v }

/-- Some transitions. A list of plain targets is one transition into several regions. -/
def readTransitions : Value → Read (List TransitionDecl)
  | undefined => .ok []
  | array items =>
    if items.isEmpty then .ok []
    else if items.all isString then do return [{ targets := ← readTargets (array items) }]
    else readItems readTransition 0 items
  | v => (readTransition v).map ([·])

/-- The transitions of an object, under each of its keys. -/
def readTransitionMap (v : Value) : Read (Assoc (List TransitionDecl)) := do
  (← readObject v).mapM fun (key, v) => do return (key, ← inside key (readTransitions v))

/-- One entry of a service. -/
def readInvokeEntry (i : InvokeDecl) (key : String) (v : Value) : Read InvokeDecl :=
  match key with
  | "id" => do return { i with id := some (← readString v) }
  | "onDone" => do return { i with onDone := ← readTransitions v }
  | "onError" => do return { i with onError := ← readTransitions v }
  | "autoForward" => .ok { i with autoForward := match v with | bool b => b | _ => false }
  | _ => .ok i

/-- One service; it has a source, which is read first. -/
def readInvoke (v : Value) : Read InvokeDecl := do
  let entries ← readObject v
  match entries.lookup "src" with
  | none => misfit .invokeSource
  | some src =>
    let src ← inside "src" (readRef src)
    entries.foldlM (fun i (key, v) => inside key (readInvokeEntry i key v)) { src }

/-! ## 5. States -/

/-- A declared kind of state. -/
def readKind (v : Value) : Read StateKind := do
  match StateKind.ofWord? (← readString v) with
  | some k => .ok k
  | none => misfit .stateType

/-- The depth of a history state: only the word for it and the truth value mean a deep one. -/
def historyDepth : Value → HistoryDepth
  | string "deep" => .deep
  | bool true => .deep
  | _ => .shallow

/-- One entry of a state, its children apart. -/
def readStateEntry (d : StateDecl) (key : String) (v : Value) : Read StateDecl :=
  match key with
  | "id" => do return { d with id := some (← readString v) }
  | "type" => do return { d with kind := some (← readKind v) }
  | "initial" => do return { d with initial := some (← readString v) }
  | "on" => do return { d with on := ← readTransitionMap v }
  | "after" => do return { d with after := ← readTransitionMap v }
  | "always" => do return { d with always := ← readTransitions v }
  | "onDone" => do return { d with onDone := ← readTransitions v }
  | "invoke" => do return { d with invoke := ← readEach readInvoke v }
  | "entry" => do return { d with entry := ← readActions v }
  | "exit" => do return { d with exit := ← readActions v }
  | "activities" => do return { d with activities := ← readEach readRef v }
  | "history" => .ok { d with history := some (historyDepth v) }
  | "target" => do return { d with target := some (← readString v) }
  | _ => .ok d

/-- A history state without a depth is shallow. -/
def withDefaultDepth (d : StateDecl) : StateDecl :=
  if d.kind = some .history && d.history.isNone then { d with history := some .shallow } else d

mutual

/-- A state with the states below it. -/
def readTree : Value → Read StateTree
  | object entries => do
    let t ← readTreeEntries .empty entries
    return .state (withDefaultDepth t.decl) t.children
  | _ => misfit .object

/-- Adds the entries of a state to what is already read. -/
def readTreeEntries (t : StateTree) : List (String × Value) → Read StateTree
  | [] => .ok t
  | (key, v) :: rest => do
    let t ←
      if key = "states" then do pure (.state t.decl (← inside key (readChildren v)))
      else do pure (.state (← inside key (readStateEntry t.decl key v)) t.children)
    readTreeEntries t rest

/-- The states below a state. -/
def readChildren : Value → Read (List (String × StateTree))
  | object entries => readChildEntries entries
  | _ => misfit .object

/-- The state under each key. -/
def readChildEntries : List (String × Value) → Read (List (String × StateTree))
  | [] => .ok []
  | (key, v) :: rest => do
    let t ← inside key (readTree v)
    let ts ← readChildEntries rest
    return (key, t) :: ts

end

/-! ## 6. Provided implementations -/

/-- Provides each key of the object under the category's plural; without such an entry nothing. -/
def readProvidedIn (entries : Assoc Value) (p : Provided) (h : Handler) : Read Provided :=
  match entries.lookup h.plural with
  | none => .ok p
  | some v => do
    let names ← inside h.plural (readObject v)
    return names.keys.foldl (fun p name => p.insert h name) p

/-- The provided implementations; only their names matter. -/
def readProvided (v : Value) : Read Provided := do
  let entries ← readObject v
  Handler.all.foldlM (readProvidedIn entries) {}

end Value

end Statechart
