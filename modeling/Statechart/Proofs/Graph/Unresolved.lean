import Statechart.Proofs.Graph.Preorder

/-!
# Targets that lead nowhere

Once the ids of a definition are registered, all that can go wrong is a target that leads nowhere.
The targets of a definition are looked up state by state in preorder; at one state those of its
events come first, then those of its eventless transitions, its delays, its completion and its
services, and the default target of a history state comes last. Main statement: a graph is built
exactly if all of them lead somewhere, and otherwise the first that does not is reported. A key
that is empty leads nowhere.
-/

namespace Statechart

/-! ## 1. What is looked up -/

/-- A target that is looked up: the number of the state on which it is written, and the fault if it
leads nowhere. -/
structure Lookup where
  source : Nat
  target : String
  fault : BuildError

/-- The targets of a transition of the state with the given number and id. -/
def TransitionDecl.lookups (source : Nat) (state : String) (event : Event) (c : TransitionDecl) :
    List Lookup :=
  c.targets.map fun target => ⟨source, target, .unresolvedTarget state event.type target⟩

/-- The targets of the state with the given number, id and kind, in the order in which they are
looked up. -/
def StateDecl.lookups (source : Nat) (state : String) (kind : StateKind) (d : StateDecl) :
    List Lookup :=
  (d.on.flatMap fun (name, cs) => cs.flatMap (·.lookups source state (.named name))) ++
  d.always.flatMap (·.lookups source state .always) ++
  (d.after.flatMap fun (delay, cs) =>
    cs.flatMap (·.lookups source state (.after (Delay.ofKey delay) state))) ++
  d.onDone.flatMap (·.lookups source state (.doneState state)) ++
  (d.invoke.zipIdx.flatMap fun (i, position) =>
    i.onDone.flatMap (·.lookups source state (.doneInvoke (i.idAt state position))) ++
    i.onError.flatMap (·.lookups source state (.errorInvoke (i.idAt state position)))) ++
  (if kind = .history then
    d.target.toList.map fun target => ⟨source, target, .unresolvedHistoryTarget state target⟩
  else [])

/-- The targets of all states of a tree, in preorder. -/
def StateTree.lookups (t : StateTree) : List Lookup :=
  t.preorder.zipIdx.flatMap fun ((path, s), i) =>
    s.decl.lookups i (s.idAt t.rootKey path) s.kind

/-! ## 2. Lists of lists -/

/-- What is found first in a list of lists is found first in one of these. -/
theorem findSome?_flatMap {α β γ : Type} (f : α → List β) (g : β → Option γ) (as : List α) :
    (as.flatMap f).findSome? g = as.findSome? fun a => (f a).findSome? g := by
  induction as with
  | nil => rfl
  | cons a as ih =>
    rw [List.flatMap_cons, List.findSome?_append, List.findSome?_cons, ih]
    cases (f a).findSome? g <;> rfl

/-- Lists that are made from items with their numbers are alike where the items are. -/
theorem flatMap_zipIdx_of_forall₂ {α β γ : Type} {R : α → β → Prop} {f : α × Nat → List γ}
    {g : β × Nat → List γ} (hfg : ∀ a b i, R a b → f (a, i) = g (b, i)) {as : List α} {bs : List β}
    (h : List.Forall₂ R as bs) (k : Nat) :
    (as.zipIdx k).flatMap f = (bs.zipIdx k).flatMap g := by
  induction h generalizing k with
  | nil => rfl
  | cons hab _ ih =>
    rw [List.zipIdx_cons, List.zipIdx_cons, List.flatMap_cons, List.flatMap_cons, hfg _ _ k hab,
      ih (k + 1)]

namespace Layout

variable (l : Layout)

/-- The target leads to a place. -/
def Leads (a : Lookup) : Prop := ∃ j, l.resolve? a.source a.target = some j

/-- The fault of a target that leads nowhere. -/
def fault? (a : Lookup) : Option BuildError :=
  match l.resolve? a.source a.target with
  | some _ => none
  | none => some a.fault

theorem fault?_eq_none_iff {a : Lookup} : l.fault? a = none ↔ l.Leads a := by
  unfold fault? Leads
  cases l.resolve? a.source a.target with
  | some j => simp
  | none => simp

theorem fault?_eq_some_iff {a : Lookup} {e : BuildError} :
    l.fault? a = some e ↔ ¬ l.Leads a ∧ e = a.fault := by
  unfold fault? Leads
  cases l.resolve? a.source a.target with
  | some j => simp
  | none => simp [eq_comm]

/-! ## 3. One state -/

variable {l}

theorem error?_transition? (i : Nat) (state : String) (event : Event) (c : TransitionDecl) :
    Outcome.error? (l.transition? i state event c) =
      (c.lookups i state event).findSome? l.fault? := by
  rw [transition?, Outcome.error?_bind (o := none) fun _ => rfl, Option.or_none,
    Outcome.error?_mapM, TransitionDecl.lookups, List.findSome?_map]
  congr 1
  funext target
  show Outcome.error? (match l.resolve? i target with
    | some j => Except.ok j
    | none => .error (BuildError.unresolvedTarget state event.type target)) = _
  simp only [Function.comp_apply, fault?]
  cases l.resolve? i target <;> rfl

theorem error?_historyTarget? (i : Nat) (p : Place) (d : StateDecl) :
    Outcome.error? (l.historyTarget? i p d) =
      (if p.kind = .history then d.target.toList.map fun target =>
        (⟨i, target, .unresolvedHistoryTarget p.id target⟩ : Lookup) else []).findSome? l.fault? := by
  unfold historyTarget?
  by_cases hkind : p.kind = .history
  · simp only [if_pos hkind]
    cases d.target with
    | none => rfl
    | some target =>
      simp only [Option.toList_some, List.map_cons, List.map_nil, List.findSome?_cons, fault?]
      cases l.resolve? i target <;> rfl
  · simp only [if_neg hkind]
    cases d.target <;> rfl

/-- The targets of a state are those of its transitions and then the default target. -/
theorem lookups_eq (i : Nat) (state : String) (kind : StateKind) (d : StateDecl) :
    d.lookups i state kind =
      ((d.transitions state).flatMap fun (event, c) => c.lookups i state event) ++
      (if kind = .history then d.target.toList.map fun target =>
        ⟨i, target, .unresolvedHistoryTarget state target⟩ else []) := by
  simp only [StateDecl.lookups, StateDecl.transitions, StateDecl.services, InvokeDecl.transitions,
    List.flatMap_append, List.flatMap_map, List.flatMap_assoc]

/-- The fault of a target tells the state on which it is written and the target itself. -/
theorem fault_of_mem_lookups {i : Nat} {state : String} {kind : StateKind} {d : StateDecl}
    {a : Lookup} (ha : a ∈ d.lookups i state kind) :
    (∃ event, a.fault = .unresolvedTarget state event a.target) ∨
      a.fault = .unresolvedHistoryTarget state a.target := by
  rw [lookups_eq] at ha
  rcases List.mem_append.1 ha with ha | ha
  · obtain ⟨⟨event, c⟩, -, ha⟩ := List.mem_flatMap.1 ha
    obtain ⟨target, -, rfl⟩ := List.mem_map.1 ha
    exact .inl ⟨event.type, rfl⟩
  · split at ha
    · obtain ⟨target, -, rfl⟩ := List.mem_map.1 ha
      exact .inr rfl
    · cases ha

/-- **A node fails with the first fault of the targets of its state.** -/
theorem error?_node? (i : Nat) (p : Place) (d : StateDecl) :
    Outcome.error? (l.node? i p d) = (d.lookups i p.id p.kind).findSome? l.fault? := by
  have htransitions : Outcome.error? ((d.transitions p.id).mapM fun (event, c) =>
      l.transition? i p.id event c) =
        ((d.transitions p.id).flatMap fun (event, c) => c.lookups i p.id event).findSome?
          l.fault? := by
    rw [Outcome.error?_mapM, findSome?_flatMap]
    congr 1
    funext q
    exact error?_transition? i p.id q.1 q.2
  have hhistory (trs : List Transition) : Outcome.error? (l.historyTarget? i p d >>= fun o =>
      pure (⟨p, trs, (d.services p.id).map fun q => ⟨q.1, q.2.src, q.2.autoForward⟩, d.entry,
        d.exit, d.activities,
        if p.kind = .history then some (d.history.getD .shallow) else none, o⟩ : Node)) =
        Outcome.error? (l.historyTarget? i p d) := by
    rw [Outcome.error?_bind (o := none) fun _ => rfl, Option.or_none]
  rw [node?, Outcome.error?_bind hhistory, htransitions, error?_historyTarget?, lookups_eq,
    List.findSome?_append]

/-! ## 4. Empty keys -/

/-- An empty key leads nowhere. -/
theorem descend?_eq_none_of_mem {keys : List String} (h : "" ∈ keys) (i : Nat) :
    l.descend? i keys = none := by
  induction keys generalizing i with
  | nil => cases h
  | cons key keys ih =>
    rw [descend?]
    by_cases hkey : key = ""
    · have hchild : l.child? i key = none := if_pos hkey
      rw [hchild, Option.bind_none]
    · have hkeys : "" ∈ keys := (List.mem_cons.1 h).resolve_left fun he => hkey he.symm
      cases l.child? i key with
      | none => rfl
      | some j => exact ih hkeys j

theorem resolve?_bare_of_mem {target : String} (htarget : Dotted.Bare target)
    (h : "" ∈ Dotted.segments target) (i : Nat) : l.resolve? i target = none := by
  rw [resolve?_bare l i htarget]
  exact descend?_eq_none_of_mem h _

theorem resolve?_dot_of_mem {relative : String} (h : "" ∈ Dotted.segments relative) (i : Nat) :
    l.resolve? i ("." ++ relative) = none := by
  rw [resolve?_dot]
  exact descend?_eq_none_of_mem h _

/-- So does an empty key after the name of a place, unless the whole is the name of one. -/
theorem resolve?_hash_of_mem {r : String} (hr : l.byId? r = none)
    (h : "" ∈ (Dotted.segments r).tail) (i : Nat) : l.resolve? i ("#" ++ r) = none := by
  rw [resolve?_hash, hr, Option.none_or]
  cases hsegments : Dotted.segments r with
  | nil => rfl
  | cons head keys =>
    rw [hsegments, List.tail_cons] at h
    dsimp only
    cases l.byId? head with
    | none => rfl
    | some j => exact descend?_eq_none_of_mem h j

end Layout

/-! ## 5. Whole trees -/

namespace Graph

variable {t : StateTree} {l : Layout}

/-- The targets of a tree are those of its places. -/
theorem lookups_placesWithDecls (t : StateTree) :
    (t.placesWithDecls.zipIdx.flatMap fun ((p, d), i) => d.lookups i p.id p.kind) = t.lookups := by
  refine (flatMap_zipIdx_of_forall₂ ?_
    (StateTree.placesFrom_preorder t.rootKey 0 [] none t) 0).symm
  rintro ⟨path, s⟩ _ i ⟨j, parent, rfl⟩
  rfl

/-- **A graph fails with the first fault of the targets of its definition.** -/
theorem error?_ofTree? (hl : t.layout? = .ok l) (provided : Provided) :
    Outcome.error? (ofTree? t provided) = t.lookups.findSome? l.fault? := by
  rw [ofTree?, hl, Outcome.ok_bind, Outcome.error?_bind (o := none) fun _ => rfl, Option.or_none,
    Outcome.error?_mapM, ← lookups_placesWithDecls, findSome?_flatMap]
  congr 1
  funext ⟨⟨p, d⟩, i⟩
  exact Layout.error?_node? i p d

/-- **A graph is built exactly if every target of its definition leads somewhere**; otherwise the
first that does not is reported. A target with an empty key leads nowhere, unless it stands after
`#` and is the name of a place as a whole. -/
theorem faults_of_ofTree? (hl : t.layout? = .ok l) (provided : Provided) :
    ((∃ g, ofTree? t provided = .ok g) ↔ ∀ a ∈ t.lookups, l.Leads a) ∧
    (∀ e, ofTree? t provided = .error e ↔ ∃ before a after, t.lookups = before ++ a :: after ∧
      (∀ b ∈ before, l.Leads b) ∧ ¬ l.Leads a ∧ e = a.fault) ∧
    (∀ i target, Dotted.Bare target → "" ∈ Dotted.segments target →
      l.resolve? i target = none) ∧
    (∀ i relative, "" ∈ Dotted.segments relative → l.resolve? i ("." ++ relative) = none) ∧
    ∀ i r, (∀ j, ¬ l.Registered t.rootKey r j) → "" ∈ (Dotted.segments r).tail →
      l.resolve? i ("#" ++ r) = none := by
  have herror := error?_ofTree? hl provided
  refine ⟨?_, fun e => ?_, fun i target => ?_, fun i relative => ?_, fun i r hr => ?_⟩
  · rw [← Outcome.error?_eq_none_iff, herror, List.findSome?_eq_none_iff]
    simp only [l.fault?_eq_none_iff]
  · rw [← Outcome.error?_eq_some_iff, herror, List.findSome?_eq_some_iff]
    simp only [l.fault?_eq_none_iff, l.fault?_eq_some_iff]
    constructor
    · intro h
      obtain ⟨before, a, after, hsplit, ⟨ha, he⟩, hbefore⟩ := h
      exact ⟨before, a, after, hsplit, hbefore, ha, he⟩
    · intro h
      obtain ⟨before, a, after, hsplit, hbefore, ha, he⟩ := h
      exact ⟨before, a, after, hsplit, ⟨ha, he⟩, hbefore⟩
  · exact fun hbare h => Layout.resolve?_bare_of_mem hbare h i
  · exact fun h => Layout.resolve?_dot_of_mem h i
  · exact fun h => Layout.resolve?_hash_of_mem ((StateTree.byId?_eq_none_iff hl).2 hr) h i

/-- A gate whose motor leads astray after its completion has already done so. -/
def gate : StateTree :=
  .state { id := some "gate", initial := some "shut" } [
    ("shut", .state {
      on := [("PUSH", [{ targets := ["ajar", "#gate.ajar.last", ".bolted"] }])]
      onDone := [{ targets := ["ajar", "ajar..last"] }]
      invoke := [{ src := .named "motor", onError := [{ targets := ["gone"] }] }] } [
        ("bolted", .state { kind := some .history, target := some "nowhere" } [])]),
    ("ajar", .state {} [("last", .state { kind := some .history, target := some "last" } [])])]

/-- The empty key of the completion is reported, not the other targets that lead nowhere. -/
theorem first_fault_of_gate : ∃ l, gate.layout? = .ok l ∧
    ofTree? gate {} =
      .error (.unresolvedTarget "gate.shut" "done.state.gate.shut" "ajar..last") ∧
    ∃ before a after, gate.lookups = before ++ a :: after ∧ (∀ b ∈ before, l.Leads b) ∧
      ¬ l.Leads a ∧ a.fault =
        .unresolvedTarget "gate.shut" "done.state.gate.shut" "ajar..last" := by
  obtain ⟨l, hl, -⟩ := Outcome.exists_eq_ok (show gate.layout?.toOption.any (fun _ => true) =
    true by decide +kernel)
  have herror : ofTree? gate {} =
      .error (.unresolvedTarget "gate.shut" "done.state.gate.shut" "ajar..last") :=
    Outcome.error?_eq_some_iff.1 (by decide +kernel)
  obtain ⟨before, a, after, hsplit, hbefore, ha, he⟩ :=
    ((faults_of_ofTree? hl {}).2.1 _).1 herror
  exact ⟨l, hl, herror, before, a, after, hsplit, hbefore, ha, he.symm⟩

end Graph

end Statechart
