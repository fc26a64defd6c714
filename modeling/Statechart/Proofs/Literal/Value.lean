import Statechart.Proofs.Literal.Basic
import Statechart.Proofs.Value.Loops
import Statechart.Proofs.Value.Misfit

/-!
# Definitions as values

The value that a literal of a state tree denotes: its fields in the order in which the shapes list
them, and choices as what their creator makes of them. Main statement: reading the value of a tree
that can be written gives the tree back.
-/

namespace Statechart

/-! ## 1. Values of definitions -/

namespace Value

/-- An object of the fields that hold something. -/
def ofFields (fields : Assoc (Option Value)) : Value := .object (Assoc.present fields)

/-- An array, unless it is empty. -/
def array? (items : List Value) : Option Value := if items.isEmpty then none else some (.array items)

/-- An object of some entries, unless there are none. -/
def object? (m : Assoc Value) : Option Value := if m.isEmpty then none else some (.object m)

end Value

/-- A reference as a value. -/
def Ref.value : Ref → Value
  | named name => .string name
  | inline => .function

mutual

/-- An action as a value. -/
def Action.value : Action → Value
  | .named name => .string name
  | .inline => .function
  | .builtin name => .ofFields [("type", some (.string name))]
  | .choose branches =>
    .ofFields [("type", some (.string Value.chooseType)),
      ("conds", some (.array (Branch.values branches)))]

def Branch.values : List Branch → List Value
  | [] => []
  | b :: rest => b.value :: Branch.values rest

/-- A branch as a value. -/
def Branch.value : Branch → Value
  | .mk cond actions => .ofFields [
      ("cond", cond.map Ref.value),
      ("actions", Value.array? (Action.values actions))]

def Action.values : List Action → List Value
  | [] => []
  | a :: rest => a.value :: Action.values rest

end

theorem Branch.values_eq (bs : List Branch) : Branch.values bs = bs.map Branch.value := by
  induction bs with
  | nil => rfl
  | cons b rest ih => rw [Branch.values, ih, List.map_cons]

theorem Action.values_eq (as : List Action) : Action.values as = as.map Action.value := by
  induction as with
  | nil => rfl
  | cons a rest ih => rw [Action.values, ih, List.map_cons]

/-- A transition as a value. -/
def TransitionDecl.value (t : TransitionDecl) : Value :=
  .ofFields [
    ("target", Value.array? (t.targets.map .string)),
    ("cond", t.cond.map Ref.value),
    ("actions", Value.array? (t.actions.map Action.value)),
    ("internal", t.internal.map .bool)]

/-- Some transitions under their keys. -/
def transitionMapValue (m : Assoc (List TransitionDecl)) : Option Value :=
  Value.object? (m.map fun (key, ts) => (key, .array (ts.map TransitionDecl.value)))

/-- A service as a value. -/
def InvokeDecl.value (i : InvokeDecl) : Value :=
  .ofFields [
    ("src", some i.src.value),
    ("id", i.id.map .string),
    ("onDone", Value.array? (i.onDone.map TransitionDecl.value)),
    ("onError", Value.array? (i.onError.map TransitionDecl.value)),
    ("autoForward", if i.autoForward then some (.bool true) else none)]

/-- The fields of a state, given those below it. -/
def StateDecl.valueFields (d : StateDecl) (states : Option Value) : Assoc (Option Value) :=
  [("id", d.id.map .string),
   ("entry", Value.array? (d.entry.map Action.value)),
   ("exit", Value.array? (d.exit.map Action.value)),
   ("on", transitionMapValue d.on),
   ("always", Value.array? (d.always.map TransitionDecl.value)),
   ("after", transitionMapValue d.after),
   ("onDone", Value.array? (d.onDone.map TransitionDecl.value)),
   ("invoke", Value.array? (d.invoke.map InvokeDecl.value)),
   ("activities", Value.array? (d.activities.map Ref.value)),
   ("type", d.kind.map fun k => .string k.word),
   ("initial", d.initial.map .string),
   ("history", d.history.map fun h => .string h.word),
   ("target", d.target.map .string),
   ("states", states)]

mutual

/-- **A state tree as a value.** -/
def StateTree.value : StateTree → Value
  | .state d cs => .ofFields (d.valueFields
      (if d.writesStates cs then some (.object (StateTree.values cs)) else none))

def StateTree.values : List (String × StateTree) → Assoc Value
  | [] => []
  | (key, t) :: rest => (key, t.value) :: StateTree.values rest

end

theorem StateTree.values_eq (cs : List (String × StateTree)) :
    StateTree.values cs = cs.map fun (key, t) => (key, t.value) := by
  induction cs with
  | nil => rfl
  | cons entry rest ih =>
    obtain ⟨key, t⟩ := entry
    rw [StateTree.values, ih, List.map_cons]

namespace Value

/-! ## 2. Reading them back -/

theorem readItems_map {α : Type} {f : Value → Read α} {value : α → Value} {as : List α}
    (h : ∀ a ∈ as, f (value a) = .ok a) (index : Nat) :
    readItems f index (as.map value) = .ok as := by
  induction as generalizing index with
  | nil => rfl
  | cons a rest ih =>
    rw [List.map_cons, readItems, h a List.mem_cons_self, inside_ok,
      ih (fun a' ha' => h a' (List.mem_cons_of_mem a ha')) (index + 1)]
    rfl

/-- Several things are read as a list that has them in order. -/
theorem readEach_map {α : Type} {f : Value → Read α} {value : α → Value} {as : List α}
    (h : ∀ a ∈ as, f (value a) = .ok a) : readEach f (.array (as.map value)) = .ok as :=
  readItems_map h 0

theorem readRef_value (r : Ref) : readRef r.value = .ok r := by cases r <;> rfl

theorem readActions_map {as : List Action} (h : ∀ a ∈ as, readAction a.value = .ok a) :
    readActions (.array (as.map Action.value)) = .ok as := by
  rw [readActions, readActionItems_eq]
  exact readItems_map h 0

theorem readBranch_value {cond : Option Ref} {actions : List Action}
    (h : ∀ a ∈ actions, readAction a.value = .ok a) :
    readBranch (Branch.mk cond actions).value = .ok (.mk cond actions) := by
  have hactions : readActionsIn (Assoc.present
      [("cond", cond.map Ref.value), ("actions", array? (Action.values actions))]) =
        .ok actions := by
    rw [Action.values_eq]
    have hread := readActions_map h
    cases actions with
    | nil => cases cond <;> rfl
    | cons a rest =>
      have hinside : inside "actions" (readActions (.array ((a :: rest).map Action.value))) =
          .ok (a :: rest) := by rw [hread, inside_ok]
      cases cond with
      | none => exact hinside
      | some r => exact hinside
  rw [Branch.value, ofFields, readBranch, hactions, Action.values_eq]
  cases cond with
  | none => cases actions <;> rfl
  | some r =>
    have hcond : inside "cond" (readRef r.value) = .ok r := by rw [readRef_value, inside_ok]
    show ((inside "cond" (readRef r.value)).map some >>= fun cond =>
      (.ok actions >>= fun as => .ok (Branch.mk cond as) : Read Branch)) = _
    rw [hcond]
    rfl

variable {cx : Context} {chooser : String}

/-- **An action that can be written is read back.** -/
theorem readAction_value {a : Action} (h : a.Expressible cx chooser) :
    readAction a.value = .ok a := by
  induction h with
  | named name => rfl
  | inline => rfl
  | @builtin name hstart hchoose =>
    have hkind : name ≠ chooseType := hchoose
    show (if name = chooseType then _ else if reservedStart.toList.isPrefixOf name.toList then _
      else _) = _
    rw [if_neg hkind, if_pos (List.isPrefixOf_iff_prefix.2 hstart)]
  | @choose branches _ _ ih =>
    have hbranches : readBranches (.array (Branch.values branches)) = .ok branches := by
      rw [Branch.values_eq, readBranches, readBranchItems_eq]
      refine readItems_map (fun b hb => ?_) 0
      cases b with
      | mk cond actions => exact readBranch_value (ih cond actions hb)
    show (inside "conds" (readBranches (.array (Branch.values branches)))).map Action.choose = _
    rw [hbranches]
    rfl

/-! ## 3. Transitions and services -/

/-- **With the field, reading goes on from `c` where it stood at `b`**: the field is left out and
changes nothing, or it is read. -/
def Step {β : Type} (g : β → String × Value → Read β) (key : String) (o : Option Value) (b c : β) :
    Prop :=
  match o with
  | none => b = c
  | some v => g b (key, v) = .ok c

theorem foldlM_of_step {β : Type} {g : β → String × Value → Read β} {key : String}
    {o : Option Value} {b c : β} (h : Step g key o b c) (rest : Assoc (Option Value)) :
    (Assoc.present ((key, o) :: rest)).foldlM g b = (Assoc.present rest).foldlM g c := by
  cases o with
  | none =>
    obtain rfl : b = c := h
    rfl
  | some v =>
    have hv : g b (key, v) = .ok c := h
    rw [Assoc.present_some, List.foldlM_cons, hv]
    rfl

section Step

variable {α β : Type} {g : β → String × Value → Read β} {key : String} {b c : β}

theorem step_some {v : Value} (h : g b (key, v) = .ok c) : Step g key (some v) b c := h

theorem step_map {o : Option α} {value : α → Value} (hnone : o = none → b = c)
    (hsome : ∀ a, o = some a → g b (key, value a) = .ok c) : Step g key (o.map value) b c := by
  cases o with
  | none => exact hnone rfl
  | some a => exact hsome a rfl

theorem step_array? {as : List α} {value : α → Value} (hnil : as = [] → b = c)
    (h : g b (key, .array (as.map value)) = .ok c) :
    Step g key (array? (as.map value)) b c := by
  cases as with
  | nil => exact hnil rfl
  | cons a rest => exact h

theorem step_object? {m : Assoc α} {value : String × α → String × Value} (hnil : m = [] → b = c)
    (h : g b (key, .object (m.map value)) = .ok c) :
    Step g key (object? (m.map value)) b c := by
  cases m with
  | nil => exact hnil rfl
  | cons entry rest => exact h

theorem inside_bind {r : Read α} {a : α} (h : r = .ok a) (f : α → β) :
    inside key (r >>= fun a => .ok (f a)) = .ok (f a) := by
  rw [h]
  rfl

end Step

theorem readTargets_value (ts : List String) : readTargets (.array (ts.map .string)) = .ok ts :=
  readEach_map fun _ _ => rfl

theorem readTransition_value {t : TransitionDecl} (ht : t.Expressible cx chooser) :
    readTransition t.value = .ok t := by
  have hactions := readActions_map fun a ha => readAction_value (ht a ha)
  obtain ⟨targets, cond, actions, internal⟩ := t
  show (Assoc.present _).foldlM (fun t entry =>
    inside entry.1 (readTransitionEntry t entry.1 entry.2)) {} = _
  rw [foldlM_of_step (c := { targets }) (step_array? (fun h => by cases h; rfl)
      (inside_bind (readTargets_value targets) _)),
    foldlM_of_step (c := { targets, cond }) (step_map (fun h => by cases h; rfl)
      fun r h => by cases h; exact inside_bind (readRef_value r) _),
    foldlM_of_step (c := { targets, cond, actions }) (step_array? (fun h => by cases h; rfl)
      (inside_bind hactions _)),
    foldlM_of_step (c := { targets, cond, actions, internal }) (step_map (fun h => by cases h; rfl)
      fun b h => by cases h; rfl)]
  rfl

theorem readTransitions_value {ts : List TransitionDecl}
    (h : ∀ t ∈ ts, t.Expressible cx chooser) :
    readTransitions (.array (ts.map TransitionDecl.value)) = .ok ts := by
  cases ts with
  | nil => rfl
  | cons t rest => exact readItems_map (fun t ht => readTransition_value (h t ht)) 0

theorem readTransitionMap_value {m : Assoc (List TransitionDecl)}
    (h : ∀ key ts, (key, ts) ∈ m → ∀ t ∈ ts, t.Expressible cx chooser) :
    readTransitionMap (.object (m.map fun (key, ts) =>
      (key, .array (ts.map TransitionDecl.value)))) = .ok m := by
  refine Outcome.mapM_eq_ok.2 (List.forall₂_map_left_iff.2 (List.forall₂_same.2 ?_))
  rintro ⟨key, ts⟩ hts
  show (inside key (readTransitions (.array (ts.map TransitionDecl.value))) >>= fun ts =>
    .ok (key, ts)) = _
  rw [readTransitions_value (h key ts hts)]
  rfl

theorem readInvoke_value {i : InvokeDecl} (hdone : ∀ t ∈ i.onDone, t.Expressible cx chooser)
    (herror : ∀ t ∈ i.onError, t.Expressible cx chooser) : readInvoke i.value = .ok i := by
  obtain ⟨src, id, onDone, onError, autoForward⟩ := i
  have hsrc : inside "src" (readRef src.value) = .ok src := by rw [readRef_value, inside_ok]
  show (inside "src" (readRef src.value) >>= fun src => (Assoc.present _).foldlM
    (fun i entry => inside entry.1 (readInvokeEntry i entry.1 entry.2)) { src }) = _
  rw [hsrc]
  show (Assoc.present _).foldlM
    (fun i entry => inside entry.1 (readInvokeEntry i entry.1 entry.2)) { src } = _
  rw [foldlM_of_step (c := { src }) (step_some rfl),
    foldlM_of_step (c := { src, id }) (step_map (fun h => by cases h; rfl) fun s h => by cases h; rfl),
    foldlM_of_step (c := { src, id, onDone }) (step_array? (fun h => by cases h; rfl)
      (inside_bind (readTransitions_value hdone) _)),
    foldlM_of_step (c := { src, id, onDone, onError }) (step_array? (fun h => by cases h; rfl)
      (inside_bind (readTransitions_value herror) _)),
    foldlM_of_step (c := { src, id, onDone, onError, autoForward }) (by cases autoForward <;> rfl)]
  rfl

/-! ## 4. States -/

theorem readTreeEntries_of_step {key : String} {o : Option Value} {d c : StateDecl}
    (h : Step (fun d (key, v) => inside key (readStateEntry d key v)) key o d c)
    (hkey : key ≠ "states") (cs : List (String × StateTree)) (rest : Assoc (Option Value)) :
    readTreeEntries (.state d cs) (Assoc.present ((key, o) :: rest)) =
      readTreeEntries (.state c cs) (Assoc.present rest) := by
  cases o with
  | none =>
    obtain rfl : d = c := h
    rfl
  | some v =>
    have hv : inside key (readStateEntry d key v) = .ok c := h
    rw [Assoc.present_some, readTreeEntries_cons, if_neg hkey]
    show (inside key (readStateEntry d key v) >>= _) = _
    rw [hv]
    rfl

/-- The fields of a state, apart from those below it, are read back. -/
theorem readTreeEntries_valueFields {d : StateDecl} {cs : List (String × StateTree)}
    (hd : d.Expressible cx chooser cs) (states : Option Value) :
    readTreeEntries .empty (Assoc.present (d.valueFields states)) =
      readTreeEntries (.state d []) (Assoc.present [("states", states)]) := by
  have hentry := readActions_map fun a ha => readAction_value (hd.entry a ha)
  have hexit := readActions_map fun a ha => readAction_value (hd.exit a ha)
  have hon := readTransitionMap_value hd.on
  have halways := readTransitions_value hd.always
  have hafter := readTransitionMap_value hd.after
  have hdone := readTransitions_value hd.onDone
  have hinvoke := readEach_map fun i hi =>
    readInvoke_value (hd.invoke i hi).1 (hd.invoke i hi).2
  have hactivities := readEach_map fun r (_ : r ∈ d.activities) => readRef_value r
  obtain ⟨id, kind, initial, on, always, after, onDone, invoke, entry, exit, activities, history,
    target⟩ := d
  unfold StateTree.empty StateDecl.valueFields transitionMapValue
  rw [readTreeEntries_of_step (c := { id })
      (step_map (fun h => by cases h; rfl) fun _ h => by cases h; rfl) (by decide),
    readTreeEntries_of_step (c := { id, entry })
      (step_array? (fun h => by cases h; rfl) (inside_bind hentry _)) (by decide),
    readTreeEntries_of_step (c := { id, entry, exit })
      (step_array? (fun h => by cases h; rfl) (inside_bind hexit _)) (by decide),
    readTreeEntries_of_step (c := { id, entry, exit, on })
      (step_object? (fun h => by cases h; rfl) (inside_bind hon _)) (by decide),
    readTreeEntries_of_step (c := { id, entry, exit, on, always })
      (step_array? (fun h => by cases h; rfl) (inside_bind halways _)) (by decide),
    readTreeEntries_of_step (c := { id, entry, exit, on, always, after })
      (step_object? (fun h => by cases h; rfl) (inside_bind hafter _)) (by decide),
    readTreeEntries_of_step (c := { id, entry, exit, on, always, after, onDone })
      (step_array? (fun h => by cases h; rfl) (inside_bind hdone _)) (by decide),
    readTreeEntries_of_step (c := { id, entry, exit, on, always, after, onDone, invoke })
      (step_array? (fun h => by cases h; rfl) (inside_bind hinvoke _)) (by decide),
    readTreeEntries_of_step
      (c := { id, entry, exit, on, always, after, onDone, invoke, activities })
      (step_array? (fun h => by cases h; rfl) (inside_bind hactivities _)) (by decide),
    readTreeEntries_of_step
      (c := { id, entry, exit, on, always, after, onDone, invoke, activities, kind })
      (step_map (fun h => by cases h; rfl) fun k h => by cases h; cases k <;> rfl) (by decide),
    readTreeEntries_of_step
      (c := { id, entry, exit, on, always, after, onDone, invoke, activities, kind, initial })
      (step_map (fun h => by cases h; rfl) fun _ h => by cases h; rfl) (by decide),
    readTreeEntries_of_step
      (c := { id, entry, exit, on, always, after, onDone, invoke, activities, kind, initial,
              history })
      (step_map (fun h => by cases h; rfl) fun k h => by cases h; cases k <;> rfl) (by decide),
    readTreeEntries_of_step
      (c := { id, entry, exit, on, always, after, onDone, invoke, activities, kind, initial,
              history, target })
      (step_map (fun h => by cases h; rfl) fun _ h => by cases h; rfl) (by decide)]

/-- A history state that can be written has its depth already. -/
theorem withDefaultDepth_eq {d : StateDecl} {cs : List (String × StateTree)}
    (hd : d.Expressible cx chooser cs) : withDefaultDepth d = d := by
  unfold withDefaultDepth
  split
  · next h =>
    rw [Bool.and_eq_true, decide_eq_true_eq] at h
    obtain ⟨depth, hdepth⟩ := Option.isSome_iff_exists.1 (hd.history.2 h.1)
    rw [hdepth] at h
    cases h.2
  · rfl

mutual

/-- **The value of a tree that can be written is read back.** -/
theorem readTree_value : {t : StateTree} → t.Expressible cx chooser → readTree t.value = .ok t
  | .state d cs, h => by
    rw [StateTree.Expressible, StateTree.Everywhere] at h
    obtain ⟨hd, hcs⟩ := h
    have hchildren := readChildEntries_values hcs
    have hentries : readTreeEntries .empty (Assoc.present (d.valueFields
        (if d.writesStates cs then some (.object (StateTree.values cs)) else none))) =
          .ok (.state d cs) := by
      rw [readTreeEntries_valueFields hd]
      split
      · rw [Assoc.present_some, readTreeEntries_cons, if_pos rfl, readChildren, hchildren]
        rfl
      · next hwrites =>
        obtain rfl : cs = [] := by
          cases cs with
          | nil => rfl
          | cons entry rest => exact absurd rfl hwrites
        rfl
    rw [StateTree.value, ofFields, readTree, hentries]
    show Except.ok (StateTree.state (withDefaultDepth d) cs) = _
    rw [withDefaultDepth_eq hd]

theorem readChildEntries_values : {cs : List (String × StateTree)} →
    StateTree.EverywhereIn (fun d cs => d.Expressible cx chooser cs) cs →
    readChildEntries (StateTree.values cs) = .ok cs
  | [], _ => rfl
  | (key, t) :: rest, h => by
    rw [StateTree.EverywhereIn] at h
    rw [StateTree.values, readChildEntries, readTree_value h.1, readChildEntries_values h.2]
    rfl

end

end Value

end Statechart
