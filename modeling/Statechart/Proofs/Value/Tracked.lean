import Statechart.Value.Definition

/-!
# Reading with the path at hand

Instead of putting the path of a misfit together on the way out, a reader may keep the keys and
positions that lead to the value at hand: it adds one before it goes inside and takes it off
afterwards. Main statement: such a reader has the same results and the same misfits, and leaves the
path as it was.
-/

namespace Statechart

/-- Reading with a path at hand, which leads to the value that is read. -/
abbrev Tracked (α : Type) := StateT (List String) (Except Misfit) α

namespace Tracked

/-! ## 1. One step -/

section Steps

variable {α β : Type}

/-- The value at hand is not of the expected form. -/
def misfit (expected : Expectation) : Tracked α := fun path => .error ⟨path, expected⟩

/-- Adds a key to the path, reads on, and takes the key off. -/
def nested (key : String) (r : Tracked α) : Tracked α := do
  modify (· ++ [key])
  let a ← r
  modify List.dropLast
  return a

/-- **The one reader follows the other**: it has the same result and leaves the path as it was, or
has the same misfit, at the end of the path. -/
def Follows (s : Tracked α) (r : Value.Read α) : Prop :=
  ∀ path, s path =
    match r with
    | .ok a => .ok (a, path)
    | .error m => .error { m with path := path ++ m.path }

theorem follows_pure (a : α) : Follows (pure a) (.ok a) := fun _ => rfl

theorem follows_misfit (expected : Expectation) :
    Follows (misfit expected : Tracked α) (Value.misfit expected) := by
  intro path
  show Except.error _ = Except.error _
  rw [List.append_nil]

theorem Follows.bind {s : Tracked α} {r : Value.Read α} {f : α → Tracked β}
    {g : α → Value.Read β} (h : Follows s r) (hf : ∀ a, Follows (f a) (g a)) :
    Follows (s >>= f) (r >>= g) := by
  intro path
  show (s path >>= fun p => f p.1 p.2) = _
  rw [h path]
  cases r with
  | ok a => exact hf a path
  | error m => rfl

theorem Follows.map {s : Tracked α} {r : Value.Read α} (h : Follows s r) (f : α → β) :
    Follows (f <$> s) (r.map f) := by
  intro path
  show (s path >>= fun p => pure (f p.1, p.2)) = _
  rw [h path]
  cases r <;> rfl

/-- What is added to the path stands first in the path of the misfit. -/
theorem Follows.nested {s : Tracked α} {r : Value.Read α} (h : Follows s r) (key : String) :
    Follows (nested key s) (Value.inside key r) := by
  intro path
  show (s (path ++ [key]) >>= fun p => pure (p.1, p.2.dropLast)) = _
  rw [h (path ++ [key])]
  cases r with
  | ok a =>
    show Except.ok (a, (path ++ [key]).dropLast) = _
    rw [List.dropLast_concat]
    rfl
  | error m =>
    show Except.error _ = Except.error _
    rw [List.append_assoc]
    rfl

theorem follows_mapM {f : α → Tracked β} {g : α → Value.Read β} {as : List α}
    (h : ∀ a, Follows (f a) (g a)) : Follows (as.mapM f) (as.mapM g) := by
  induction as with
  | nil => exact follows_pure []
  | cons a as ih =>
    rw [List.mapM_cons, List.mapM_cons]
    exact (h a).bind fun b => ih.bind fun bs => follows_pure (b :: bs)

theorem follows_foldlM {f : β → α → Tracked β} {g : β → α → Value.Read β} {as : List α}
    (h : ∀ b a, Follows (f b a) (g b a)) (b : β) : Follows (as.foldlM f b) (as.foldlM g b) := by
  induction as generalizing b with
  | nil => exact follows_pure b
  | cons a as ih =>
    rw [List.foldlM_cons, List.foldlM_cons]
    exact (h b a).bind ih

end Steps

/-! ## 2. Texts and references -/

/-- The text of a string. -/
def readString : Value → Tracked String
  | .string s => pure s
  | _ => misfit .string

/-- The entries of an object. -/
def readObject : Value → Tracked (Assoc Value)
  | .object entries => pure entries
  | _ => misfit .object

/-- Reads each of some items at its position, from `index` on. -/
def readItems {α : Type} (f : Value → Tracked α) (index : Nat) : List Value → Tracked (List α)
  | [] => pure []
  | v :: rest => do
    let a ← nested (toString index) (f v)
    let as ← readItems f (index + 1) rest
    return a :: as

/-- Reads each item of an array, or the value itself as the only item. -/
def readEach {α : Type} (f : Value → Tracked α) : Value → Tracked (List α)
  | .array items => readItems f 0 items
  | v => ([·]) <$> f v

/-- A guard, service or activity. -/
def readRef : Value → Tracked Ref
  | .string name => pure (.named name)
  | .function => pure .inline
  | .object entries =>
    match entries.lookup "type" with
    | some (.string name) => pure (.named name)
    | _ => misfit .typedObject
  | _ => misfit .nameOrImplementation

theorem follows_readString (v : Value) : Follows (readString v) v.readString := by
  cases v with
  | string s => exact follows_pure s
  | _ => exact follows_misfit .string

theorem follows_readObject (v : Value) : Follows (readObject v) v.readObject := by
  cases v with
  | object entries => exact follows_pure entries
  | _ => exact follows_misfit .object

theorem follows_readItems {α : Type} {f : Value → Tracked α} {g : Value → Value.Read α}
    (h : ∀ v, Follows (f v) (g v)) (index : Nat) (items : List Value) :
    Follows (readItems f index items) (Value.readItems g index items) := by
  induction items generalizing index with
  | nil => exact follows_pure []
  | cons v rest ih =>
    exact ((h v).nested _).bind fun a => (ih (index + 1)).bind fun as => follows_pure (a :: as)

theorem follows_readEach {α : Type} {f : Value → Tracked α} {g : Value → Value.Read α}
    (h : ∀ v, Follows (f v) (g v)) (v : Value) : Follows (readEach f v) (Value.readEach g v) := by
  cases v with
  | array items => exact follows_readItems h 0 items
  | _ => exact (h _).map _

theorem follows_readRef (v : Value) : Follows (readRef v) v.readRef := by
  cases v with
  | string name => exact follows_pure _
  | function => exact follows_pure _
  | object entries =>
    rw [readRef, Value.readRef]
    cases entries.lookup "type" with
    | none => exact follows_misfit _
    | some w =>
      cases w with
      | string name => exact follows_pure _
      | _ => exact follows_misfit _
  | _ => exact follows_misfit _

/-! ## 3. Actions -/

/-- The action of a value that is no object. -/
def readPlainAction : Value → Tracked Action
  | .string name => pure (.named name)
  | .function => pure .inline
  | _ => misfit .nameOrImplementation

/-- The action of an object, told by its type. -/
def typedAction (entries : Assoc Value) (branches : Tracked (List Branch)) : Tracked Action :=
  match entries.lookup "type" with
  | some (.string kind) =>
    if kind = Value.chooseType then Action.choose <$> branches
    else if reservedStart.toList.isPrefixOf kind.toList then pure (.builtin kind)
    else pure (.named kind)
  | _ => misfit .typedAction

/-- The branch of an object. -/
def branchOf (entries : Assoc Value) (actions : Tracked (List Action)) : Tracked Branch := do
  let cond ←
    match entries.lookup "cond" with
    | some v => some <$> nested "cond" (readRef v)
    | none => pure none
  return .mk cond (← actions)

mutual

/-- One action. -/
def readAction : Value → Tracked Action
  | .object entries => typedAction entries (readBranchesIn entries)
  | v => readPlainAction v

/-- The branches under `conds` of an object. -/
def readBranchesIn : List (String × Value) → Tracked (List Branch)
  | [] => pure []
  | (key, v) :: rest =>
    if key = "conds" then nested key (readBranches v) else readBranchesIn rest

/-- Some branches, or a single one. -/
def readBranches : Value → Tracked (List Branch)
  | .array items => readBranchItems 0 items
  | .object entries => ([·]) <$> branchOf entries (readActionsIn entries)
  | _ => misfit .object

/-- Each of some branches at its position, from `index` on. -/
def readBranchItems (index : Nat) : List Value → Tracked (List Branch)
  | [] => pure []
  | v :: rest => do
    let b ← nested (toString index) (readBranch v)
    let bs ← readBranchItems (index + 1) rest
    return b :: bs

/-- One branch. -/
def readBranch : Value → Tracked Branch
  | .object entries => branchOf entries (readActionsIn entries)
  | _ => misfit .object

/-- The actions under `actions` of an object. -/
def readActionsIn : List (String × Value) → Tracked (List Action)
  | [] => pure []
  | (key, v) :: rest =>
    if key = "actions" then nested key (readActions v) else readActionsIn rest

/-- Some actions, or a single one. -/
def readActions : Value → Tracked (List Action)
  | .array items => readActionItems 0 items
  | .object entries => ([·]) <$> typedAction entries (readBranchesIn entries)
  | v => ([·]) <$> readPlainAction v

/-- Each of some actions at its position, from `index` on. -/
def readActionItems (index : Nat) : List Value → Tracked (List Action)
  | [] => pure []
  | v :: rest => do
    let a ← nested (toString index) (readAction v)
    let as ← readActionItems (index + 1) rest
    return a :: as

end

theorem follows_readPlainAction (v : Value) : Follows (readPlainAction v) v.readPlainAction := by
  cases v with
  | string name => exact follows_pure _
  | function => exact follows_pure _
  | _ => exact follows_misfit _

theorem follows_typedAction (entries : Assoc Value) {s : Tracked (List Branch)}
    {r : Value.Read (List Branch)} (h : Follows s r) :
    Follows (typedAction entries s) (Value.typedAction entries r) := by
  unfold typedAction Value.typedAction
  cases entries.lookup "type" with
  | none => exact follows_misfit _
  | some w =>
    cases w with
    | string kind =>
      dsimp only
      split
      · exact h.map _
      · split <;> exact follows_pure _
    | _ => exact follows_misfit _

theorem follows_branchOf (entries : Assoc Value) {s : Tracked (List Action)}
    {r : Value.Read (List Action)} (h : Follows s r) :
    Follows (branchOf entries s) (Value.branchOf entries r) := by
  unfold branchOf Value.branchOf
  cases entries.lookup "cond" with
  | none => exact (follows_pure none).bind fun _ => h.bind fun _ => follows_pure _
  | some v =>
    exact (((follows_readRef v).nested _).map _).bind fun _ => h.bind fun _ => follows_pure _

mutual

theorem follows_readAction : (v : Value) → Follows (readAction v) v.readAction
  | .object entries => follows_typedAction entries (follows_readBranchesIn entries)
  | .undefined => follows_readPlainAction .undefined
  | .bool b => follows_readPlainAction (.bool b)
  | .number x => follows_readPlainAction (.number x)
  | .string s => follows_readPlainAction (.string s)
  | .array items => follows_readPlainAction (.array items)
  | .function => follows_readPlainAction .function

theorem follows_readBranchesIn : (entries : List (String × Value)) →
    Follows (readBranchesIn entries) (Value.readBranchesIn entries)
  | [] => follows_pure []
  | (key, v) :: rest => by
    rw [readBranchesIn, Value.readBranchesIn]
    split
    · exact (follows_readBranches v).nested key
    · exact follows_readBranchesIn rest

theorem follows_readBranches : (v : Value) → Follows (readBranches v) v.readBranches
  | .array items => follows_readBranchItems 0 items
  | .object entries => (follows_branchOf entries (follows_readActionsIn entries)).map _
  | .undefined => follows_misfit _
  | .bool _ => follows_misfit _
  | .number _ => follows_misfit _
  | .string _ => follows_misfit _
  | .function => follows_misfit _

theorem follows_readBranchItems (index : Nat) : (items : List Value) →
    Follows (readBranchItems index items) (Value.readBranchItems index items)
  | [] => follows_pure []
  | v :: rest =>
    ((follows_readBranch v).nested _).bind fun b =>
      (follows_readBranchItems (index + 1) rest).bind fun bs => follows_pure (b :: bs)

theorem follows_readBranch : (v : Value) → Follows (readBranch v) v.readBranch
  | .object entries => follows_branchOf entries (follows_readActionsIn entries)
  | .undefined => follows_misfit _
  | .bool _ => follows_misfit _
  | .number _ => follows_misfit _
  | .string _ => follows_misfit _
  | .array _ => follows_misfit _
  | .function => follows_misfit _

theorem follows_readActionsIn : (entries : List (String × Value)) →
    Follows (readActionsIn entries) (Value.readActionsIn entries)
  | [] => follows_pure []
  | (key, v) :: rest => by
    rw [readActionsIn, Value.readActionsIn]
    split
    · exact (follows_readActions v).nested key
    · exact follows_readActionsIn rest

theorem follows_readActions : (v : Value) → Follows (readActions v) v.readActions
  | .array items => follows_readActionItems 0 items
  | .object entries => (follows_typedAction entries (follows_readBranchesIn entries)).map _
  | .undefined => (follows_readPlainAction .undefined).map _
  | .bool b => (follows_readPlainAction (.bool b)).map _
  | .number x => (follows_readPlainAction (.number x)).map _
  | .string s => (follows_readPlainAction (.string s)).map _
  | .function => (follows_readPlainAction .function).map _

theorem follows_readActionItems (index : Nat) : (items : List Value) →
    Follows (readActionItems index items) (Value.readActionItems index items)
  | [] => follows_pure []
  | v :: rest =>
    ((follows_readAction v).nested _).bind fun a =>
      (follows_readActionItems (index + 1) rest).bind fun as => follows_pure (a :: as)

end

/-! ## 4. Transitions and services -/

/-- The targets of a transition. -/
def readTargets : Value → Tracked (List String)
  | .undefined => pure []
  | v => readEach readString v

/-- One entry of a transition. -/
def readTransitionEntry (t : TransitionDecl) (key : String) (v : Value) :
    Tracked TransitionDecl :=
  match key with
  | "target" => do return { t with targets := ← readTargets v }
  | "cond" => do return { t with cond := some (← readRef v) }
  | "actions" => do return { t with actions := ← readActions v }
  | "internal" => pure { t with internal := some (match v with | .bool b => b | _ => false) }
  | _ => pure t

/-- One transition: an object, or just its targets. -/
def readTransition : Value → Tracked TransitionDecl
  | .object entries =>
    entries.foldlM (fun t (key, v) => nested key (readTransitionEntry t key v)) {}
  | v => do return { targets := ← readTargets v }

/-- Some transitions. -/
def readTransitions : Value → Tracked (List TransitionDecl)
  | .undefined => pure []
  | .array items =>
    if items.isEmpty then pure []
    else if items.all Value.isString then do return [{ targets := ← readTargets (.array items) }]
    else readItems readTransition 0 items
  | v => ([·]) <$> readTransition v

/-- The transitions of an object, under each of its keys. -/
def readTransitionMap (v : Value) : Tracked (Assoc (List TransitionDecl)) := do
  (← readObject v).mapM fun (key, v) => do return (key, ← nested key (readTransitions v))

/-- One entry of a service. -/
def readInvokeEntry (i : InvokeDecl) (key : String) (v : Value) : Tracked InvokeDecl :=
  match key with
  | "id" => do return { i with id := some (← readString v) }
  | "onDone" => do return { i with onDone := ← readTransitions v }
  | "onError" => do return { i with onError := ← readTransitions v }
  | "autoForward" => pure { i with autoForward := match v with | .bool b => b | _ => false }
  | _ => pure i

/-- One service. -/
def readInvoke (v : Value) : Tracked InvokeDecl := do
  let entries ← readObject v
  match entries.lookup "src" with
  | none => misfit .invokeSource
  | some src =>
    let src ← nested "src" (readRef src)
    entries.foldlM (fun i (key, v) => nested key (readInvokeEntry i key v)) { src }

theorem follows_readTargets (v : Value) : Follows (readTargets v) v.readTargets := by
  cases v with
  | undefined => exact follows_pure []
  | array items => exact follows_readItems follows_readString 0 items
  | _ => exact (follows_readString _).map _

theorem follows_readTransitionEntry (t : TransitionDecl) (key : String) (v : Value) :
    Follows (readTransitionEntry t key v) (Value.readTransitionEntry t key v) := by
  unfold readTransitionEntry Value.readTransitionEntry
  split
  · exact (follows_readTargets v).bind fun _ => follows_pure _
  · exact (follows_readRef v).bind fun _ => follows_pure _
  · exact (follows_readActions v).bind fun _ => follows_pure _
  · exact follows_pure _
  · simp [*, follows_pure]

theorem follows_readTransition (v : Value) : Follows (readTransition v) v.readTransition := by
  cases v with
  | object entries =>
    exact follows_foldlM (fun t (entry : String × Value) =>
      (follows_readTransitionEntry t entry.1 entry.2).nested entry.1) {}
  | _ => exact (follows_readTargets _).bind fun _ => follows_pure _

theorem follows_readTransitions (v : Value) : Follows (readTransitions v) v.readTransitions := by
  cases v with
  | undefined => exact follows_pure []
  | array items =>
    rw [readTransitions, Value.readTransitions]
    split
    · exact follows_pure []
    · split
      · exact (follows_readTargets _).bind fun _ => follows_pure _
      · exact follows_readItems follows_readTransition 0 items
  | _ => exact (follows_readTransition _).map _

theorem follows_readTransitionMap (v : Value) :
    Follows (readTransitionMap v) v.readTransitionMap :=
  (follows_readObject v).bind fun _ => follows_mapM fun entry =>
    ((follows_readTransitions entry.2).nested entry.1).bind fun _ => follows_pure _

theorem follows_readInvokeEntry (i : InvokeDecl) (key : String) (v : Value) :
    Follows (readInvokeEntry i key v) (Value.readInvokeEntry i key v) := by
  unfold readInvokeEntry Value.readInvokeEntry
  split
  · exact (follows_readString v).bind fun _ => follows_pure _
  · exact (follows_readTransitions v).bind fun _ => follows_pure _
  · exact (follows_readTransitions v).bind fun _ => follows_pure _
  · exact follows_pure _
  · simp [*, follows_pure]

theorem follows_readInvoke (v : Value) : Follows (readInvoke v) v.readInvoke := by
  refine (follows_readObject v).bind fun entries => ?_
  cases entries.lookup "src" with
  | none => exact follows_misfit _
  | some src =>
    refine ((follows_readRef src).nested "src").bind fun _ => ?_
    exact follows_foldlM (fun i (entry : String × Value) =>
      (follows_readInvokeEntry i entry.1 entry.2).nested entry.1) _

/-! ## 5. States -/

/-- A declared kind of state. -/
def readKind (v : Value) : Tracked StateKind := do
  match StateKind.ofWord? (← readString v) with
  | some k => pure k
  | none => misfit .stateType

/-- One entry of a state, its children apart. -/
def readStateEntry (d : StateDecl) (key : String) (v : Value) : Tracked StateDecl :=
  match key with
  | "id" => do return { d with id := some (← readString v) }
  | "type" => do return { d with kind := some (← readKind v) }
  | "initial" => do return { d with initial := some (← readString v) }
  | "on" => do return { d with on := ← readTransitionMap v }
  | "after" => do return { d with after := ← readTransitionMap v }
  | "always" => do return { d with always := ← readTransitions v }
  | "onDone" => do return { d with onDone := ← readTransitions v }
  | "invoke" => do return { d with invoke := ← readEach readInvoke v }
  | "entry" => do return { d with entry := ← readActions v }
  | "exit" => do return { d with exit := ← readActions v }
  | "activities" => do return { d with activities := ← readEach readRef v }
  | "history" => pure { d with history := some (Value.historyDepth v) }
  | "target" => do return { d with target := some (← readString v) }
  | _ => pure d

mutual

/-- A state with the states below it. -/
def readTree : Value → Tracked StateTree
  | .object entries => do
    let t ← readTreeEntries .empty entries
    return .state (Value.withDefaultDepth t.decl) t.children
  | _ => misfit .object

/-- Adds the entries of a state to what is already read. -/
def readTreeEntries (t : StateTree) : List (String × Value) → Tracked StateTree
  | [] => pure t
  | (key, v) :: rest => do
    let t ←
      if key = "states" then do pure (.state t.decl (← nested key (readChildren v)))
      else do pure (.state (← nested key (readStateEntry t.decl key v)) t.children)
    readTreeEntries t rest

/-- The states below a state. -/
def readChildren : Value → Tracked (List (String × StateTree))
  | .object entries => readChildEntries entries
  | _ => misfit .object

/-- The state under each key. -/
def readChildEntries : List (String × Value) → Tracked (List (String × StateTree))
  | [] => pure []
  | (key, v) :: rest => do
    let t ← nested key (readTree v)
    let ts ← readChildEntries rest
    return (key, t) :: ts

end

theorem follows_readKind (v : Value) : Follows (readKind v) v.readKind := by
  refine (follows_readString v).bind fun word => ?_
  cases StateKind.ofWord? word with
  | none => exact follows_misfit _
  | some k => exact follows_pure k

theorem follows_readStateEntry (d : StateDecl) (key : String) (v : Value) :
    Follows (readStateEntry d key v) (Value.readStateEntry d key v) := by
  unfold readStateEntry Value.readStateEntry
  split
  · exact (follows_readString v).bind fun _ => follows_pure _
  · exact (follows_readKind v).bind fun _ => follows_pure _
  · exact (follows_readString v).bind fun _ => follows_pure _
  · exact (follows_readTransitionMap v).bind fun _ => follows_pure _
  · exact (follows_readTransitionMap v).bind fun _ => follows_pure _
  · exact (follows_readTransitions v).bind fun _ => follows_pure _
  · exact (follows_readTransitions v).bind fun _ => follows_pure _
  · exact (follows_readEach follows_readInvoke v).bind fun _ => follows_pure _
  · exact (follows_readActions v).bind fun _ => follows_pure _
  · exact (follows_readActions v).bind fun _ => follows_pure _
  · exact (follows_readEach follows_readRef v).bind fun _ => follows_pure _
  · exact follows_pure _
  · exact (follows_readString v).bind fun _ => follows_pure _
  · simp [*, follows_pure]

mutual

theorem follows_readTree : (v : Value) → Follows (readTree v) v.readTree
  | .object entries => (follows_readTreeEntries .empty entries).bind fun _ => follows_pure _
  | .undefined => follows_misfit _
  | .bool _ => follows_misfit _
  | .number _ => follows_misfit _
  | .string _ => follows_misfit _
  | .array _ => follows_misfit _
  | .function => follows_misfit _

theorem follows_readTreeEntries (t : StateTree) : (entries : List (String × Value)) →
    Follows (readTreeEntries t entries) (Value.readTreeEntries t entries)
  | [] => follows_pure t
  | (key, v) :: rest => by
    rw [readTreeEntries, Value.readTreeEntries]
    split
    · refine ((follows_readChildren v).nested key).bind fun children => ?_
      exact follows_readTreeEntries (.state t.decl children) rest
    · refine ((follows_readStateEntry t.decl key v).nested key).bind fun decl => ?_
      exact follows_readTreeEntries (.state decl t.children) rest

theorem follows_readChildren : (v : Value) → Follows (readChildren v) v.readChildren
  | .object entries => follows_readChildEntries entries
  | .undefined => follows_misfit _
  | .bool _ => follows_misfit _
  | .number _ => follows_misfit _
  | .string _ => follows_misfit _
  | .array _ => follows_misfit _
  | .function => follows_misfit _

theorem follows_readChildEntries : (entries : List (String × Value)) →
    Follows (readChildEntries entries) (Value.readChildEntries entries)
  | [] => follows_pure []
  | (key, v) :: rest =>
    ((follows_readTree v).nested key).bind fun t =>
      (follows_readChildEntries rest).bind fun ts => follows_pure ((key, t) :: ts)

end

/-! ## 6. Provided implementations -/

/-- Provides each key of the object under the category's plural. -/
def readProvidedIn (entries : Assoc Value) (p : Provided) (h : Handler) : Tracked Provided :=
  match entries.lookup h.plural with
  | none => pure p
  | some v => do
    let names ← nested h.plural (readObject v)
    return names.keys.foldl (fun p name => p.insert h name) p

/-- The provided implementations. -/
def readProvided (v : Value) : Tracked Provided := do
  let entries ← readObject v
  Handler.all.foldlM (readProvidedIn entries) {}

theorem follows_readProvidedIn (entries : Assoc Value) (p : Provided) (h : Handler) :
    Follows (readProvidedIn entries p h) (Value.readProvidedIn entries p h) := by
  unfold readProvidedIn Value.readProvidedIn
  cases entries.lookup h.plural with
  | none => exact follows_pure p
  | some v => exact ((follows_readObject v).nested h.plural).bind fun _ => follows_pure _

theorem follows_readProvided (v : Value) : Follows (readProvided v) v.readProvided :=
  (follows_readObject v).bind fun entries =>
    follows_foldlM (follows_readProvidedIn entries) {}

/-! ## 7. Whole values -/

/-- With no key at hand at first, a reader that follows another one does what that one does. -/
theorem Follows.run_eq {α : Type} {s : Tracked α} {r : Value.Read α} (h : Follows s r) :
    s.run' [] = r := by
  show Prod.fst <$> s [] = r
  rw [h []]
  cases r <;> rfl

/-- **With the path at hand the same definition is read, and the same misfit is met.** -/
theorem run_readTree (v : Value) : (readTree v).run' [] = v.readTree := (follows_readTree v).run_eq

/-- **So are the same provided implementations.** -/
theorem run_readProvided (v : Value) : (readProvided v).run' [] = v.readProvided :=
  (follows_readProvided v).run_eq

end Tracked

end Statechart
