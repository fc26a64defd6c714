import Statechart.Proofs.Graph.Resolution

/-!
# The transitions of a built graph

Every state of a definition has one node, and the node has the declared transitions of the state:
each once, in order, with the event it waits for and with the one place that each of its targets
denotes.
-/

namespace Statechart

/-! ## 1. Nodes -/

namespace Layout

variable {l : Layout} {i : Nat} {p : Place} {d : StateDecl} {n : Node}

/-- A transition keeps what is declared, and its targets are looked up one by one. -/
theorem transition?_eq_ok {state : String} {event : Event} {c : TransitionDecl} {tr : Transition}
    (h : l.transition? i state event c = .ok tr) :
    tr.event = event ∧ tr.cond = c.cond ∧ tr.actions = c.actions ∧
      List.Forall₂ (fun target j => l.resolve? i target = some j) c.targets tr.targets := by
  obtain ⟨js, hjs, h⟩ := Outcome.bind_eq_ok.1 h
  obtain rfl := Except.ok.inj h
  refine ⟨rfl, rfl, rfl, (Outcome.mapM_eq_ok.1 hjs).imp fun target j hj => ?_⟩
  split at hj
  · next k hk => rw [hk, Except.ok.inj hj]
  · cases hj

/-- Where the default target of a state is looked up at all, it is found. -/
theorem historyTarget?_eq_ok {o : Option Nat} (h : l.historyTarget? i p d = .ok o) :
    (o.isSome ↔ p.kind = .history ∧ d.target.isSome) ∧
      ∀ target, d.target = some target → ∀ j, o = some j → l.resolve? i target = some j := by
  unfold historyTarget? at h
  cases ht : d.target with
  | none =>
    rw [ht] at h
    obtain rfl := Except.ok.inj h
    simp
  | some target =>
    rw [ht] at h
    by_cases hk : p.kind = .history
    · simp only [if_pos hk] at h
      split at h
      · next j hj =>
        obtain rfl := Except.ok.inj h
        refine ⟨by simp [hk], ?_⟩
        rintro _ ⟨⟩ _ ⟨⟩
        exact hj
      · cases h
    · simp only [if_neg hk] at h
      obtain rfl := Except.ok.inj h
      simp [hk]

/-- A node is its place with the transitions and the default target looked up. -/
theorem node?_eq_ok (h : l.node? i p d = .ok n) : n.toPlace = p ∧
    List.Forall₂ (fun (ec : Event × TransitionDecl) tr =>
      l.transition? i p.id ec.1 ec.2 = .ok tr) (d.transitions p.id) n.transitions ∧
    l.historyTarget? i p d = .ok n.historyTarget := by
  obtain ⟨trs, htrs, h⟩ := Outcome.bind_eq_ok.1 h
  obtain ⟨o, ho, h⟩ := Outcome.bind_eq_ok.1 h
  obtain rfl := Except.ok.inj h
  exact ⟨rfl, Outcome.mapM_eq_ok.1 htrs, ho⟩

end Layout

/-! ## 2. A graph and its layout -/

namespace Graph

variable {t s : StateTree} {provided : Provided} {g : Graph}

/-- **A graph is built from the layout of its definition, node by node.** -/
theorem ofTree?_eq_ok (hg : ofTree? t provided = .ok g) : t.layout? = .ok g.layout ∧
    List.Forall₂ (fun (pd : (Place × StateDecl) × Nat) n =>
      g.layout.node? pd.2 pd.1.1 pd.1.2 = .ok n) t.placesWithDecls.zipIdx g.nodes := by
  obtain ⟨l, hl, h⟩ := Outcome.bind_eq_ok.1 hg
  obtain ⟨nodes, hnodes, h⟩ := Outcome.bind_eq_ok.1 h
  obtain rfl := Except.ok.inj h
  have hall : List.Forall₂ (fun (pd : (Place × StateDecl) × Nat) n =>
      l.node? pd.2 pd.1.1 pd.1.2 = .ok n) t.placesWithDecls.zipIdx nodes :=
    Outcome.mapM_eq_ok.1 hnodes
  -- a node is its place with more fields, so the nodes have the places of the layout
  have hplaces : nodes.map Node.toPlace = t.placesWithDecls.zipIdx.map (Prod.fst ∘ Prod.fst) := by
    refine List.forall₂_eq_eq_eq ▸ List.forall₂_map_left_iff.2 (List.forall₂_map_right_iff.2 ?_)
    exact hall.flip.imp fun n pd hn => (Layout.node?_eq_ok hn).1
  have hlayout : layout ⟨nodes, l.ids, provided⟩ = l := by
    rw [layout, hplaces, ← List.map_map, List.zipIdx_map_fst, ← StateTree.places_of_layout? hl]
  rw [hlayout]
  exact ⟨hl, hall⟩

/-- **Every state has its node at its number.** -/
theorem exists_node (hg : ofTree? t provided = .ok g) {i : Nat} {path : List String}
    {parent : Option Nat} (hs : t.Located i path parent s) :
    ∃ n, g.nodes[i]? = some n ∧ n.toPlace = StateTree.placeAt t.rootKey i path parent s ∧
      g.layout.node? i n.toPlace s.decl = .ok n := by
  have hi : t.placesWithDecls.zipIdx[i]? =
      some ((StateTree.placeAt t.rootKey i path parent s, s.decl), i) := by
    rw [List.getElem?_zipIdx, hs.getElem?, Nat.zero_add]
    rfl
  obtain ⟨n, hn, hnode⟩ := Outcome.getElem?_of_forall₂ (ofTree?_eq_ok hg).2 hi
  have hplace := (Layout.node?_eq_ok hnode).1
  exact ⟨n, hn, hplace, by rw [hplace]; exact hnode⟩

theorem place_of_node {i : Nat} {n : Node} (hn : g.nodes[i]? = some n) :
    g.layout.places[i]? = some n.toPlace := by
  rw [places_layout, List.getElem?_map, hn]
  rfl

/-! ## 3. Transitions -/

/-- **The transition `tr` of the node `i` carries out the declared one `c`**: it waits for the
event, keeps the guard and the actions, and has for each target in turn the one place that the
target denotes. -/
structure Carries (g : Graph) (rootKey : String) (i : Nat) (event : Event) (c : TransitionDecl)
    (tr : Transition) : Prop where
  event_eq : tr.event = event
  cond_eq : tr.cond = c.cond
  actions_eq : tr.actions = c.actions
  targets : List.Forall₂ (fun target j => ∀ k, g.layout.Denotes rootKey i target k ↔ k = j)
    c.targets tr.targets

theorem carries_of_transition? (ht : t.KeysDistinct) (hg : ofTree? t provided = .ok g) {i : Nat}
    {p : Place} (hp : g.layout.places[i]? = some p) {event : Event} {c : TransitionDecl}
    {tr : Transition} (h : g.layout.transition? i p.id event c = .ok tr) :
    g.Carries t.rootKey i event c tr := by
  obtain ⟨hevent, hcond, hactions, htargets⟩ := Layout.transition?_eq_ok h
  refine ⟨hevent, hcond, hactions, htargets.imp fun target j hj => ?_⟩
  exact StateTree.denotes_iff_of_resolve? (ofTree?_eq_ok hg).1 ht hp hj

/-- **No transition is lost, doubled or led astray.** Each state, found by its path, has one node.
The transitions of the node are those declared under events, those without an event, those under
delays, those for completion, and for each service those for its end and for its failure; a history
state that declares a default target, and no other state, has the place it denotes. -/
theorem transitions_of_ofTree? (ht : t.KeysDistinct) (hg : ofTree? t provided = .ok g)
    {path : List String} (hs : t.at? path = some s) :
    ∃ i n, g.nodes[i]? = some n ∧ n.path = path ∧
      (∀ j m, g.nodes[j]? = some m → m.path = path → j = i) ∧
      n.id = s.decl.id.getD (Dotted.join (t.rootKey :: path)) ∧
      List.Forall₂ (fun (ec : Event × TransitionDecl) tr => g.Carries t.rootKey i ec.1 ec.2 tr)
        ((s.decl.on.flatMap fun (event, cs) => cs.map fun c => (Event.named event, c)) ++
          (s.decl.always.map fun c => (Event.always, c)) ++
          (s.decl.after.flatMap fun (delay, cs) =>
            cs.map fun c => (Event.after (Delay.ofKey delay) n.id, c)) ++
          (s.decl.onDone.map fun c => (Event.doneState n.id, c)) ++
          s.decl.invoke.zipIdx.flatMap fun (service, position) =>
            (service.onDone.map fun c => (Event.doneInvoke (service.idAt n.id position), c)) ++
              service.onError.map fun c => (Event.errorInvoke (service.idAt n.id position), c))
        n.transitions ∧
      (n.historyTarget.isSome ↔ s.kind = .history ∧ s.decl.target.isSome) ∧
      ∀ target, s.decl.target = some target → ∀ j, n.historyTarget = some j →
        ∀ k, g.layout.Denotes t.rootKey i target k ↔ k = j := by
  obtain ⟨i, parent, hi⟩ := StateTree.Located.root.of_at? hs
  obtain ⟨n, hn, hplace, hnode⟩ := exists_node hg hi
  obtain ⟨-, htrs, hhist⟩ := Layout.node?_eq_ok hnode
  have hp := place_of_node hn
  have hpath : n.path = path := by rw [hplace]; rfl
  refine ⟨i, n, hn, hpath, fun j m hm hmp => ?_, by rw [hplace]; rfl, ?_, ?_, ?_⟩
  · exact StateTree.path_injective (ofTree?_eq_ok hg).1 ht (place_of_node hm) hp
      (hmp.trans hpath.symm)
  · have hcarry := htrs.imp fun ec tr htr => carries_of_transition? ht hg hp htr
    rw [StateDecl.transitions, StateDecl.services, List.flatMap_map] at hcarry
    exact hcarry
  · have hkind : n.kind = s.kind := by rw [hplace]; rfl
    rw [← hkind]
    exact (Layout.historyTarget?_eq_ok hhist).1
  · intro target htarget j hj
    exact StateTree.denotes_iff_of_resolve? (ofTree?_eq_ok hg).1 ht hp
      ((Layout.historyTarget?_eq_ok hhist).2 target htarget j hj)

/-- A door that sounds an alarm while it stands open, and remembers how far. -/
def door : StateTree :=
  .state { id := some "door", initial := some "closed" } [
    ("closed", .state {
      on := [("OPEN", [{ targets := ["opened.ajar"], cond := some (.named "unlocked") }])]
      after := [("500", [{ targets := ["opened.last"], actions := [.named "creak"] }])] } []),
    ("opened", .state {
      id := some "out"
      always := [{ targets := [".wide"], cond := some .inline }]
      invoke := [{ src := .named "alarm", onDone := [{ targets := ["#out", "#door.closed"] }] }] } [
        ("ajar", .state { on := [("PUSH", [{ targets := ["wide"] }])] } []),
        ("wide", .empty),
        ("last", .state { kind := some .history, target := some "wide" } [])])]

theorem keysDistinct_door : door.KeysDistinct := by
  simp [door, StateTree.KeysDistinct, StateTree.KeysDistinctAll, StateTree.empty, Assoc.Distinct]

theorem events_of_opened_door : ∃ (g : Graph) (i : Nat) (n : Node),
    ofTree? door {} = .ok g ∧ g.nodes[i]? = some n ∧ n.path = ["opened"] ∧
      n.transitions.map Transition.event = [.always, .doneInvoke "alarm"] := by
  obtain ⟨g, hg, -⟩ := Outcome.exists_eq_ok (show (ofTree? door {}).toOption.any (fun _ => true) =
    true by decide +kernel)
  have hs : door.at? ["opened"] = some _ := rfl
  obtain ⟨i, n, hn, hpath, -, -, htrs, -⟩ := transitions_of_ofTree? keysDistinct_door hg hs
  refine ⟨g, i, n, hg, hn, hpath, ?_⟩
  have hevents := List.forall₂_map_left_iff.2 (List.forall₂_map_right_iff.2
    (htrs.imp fun ec tr h => h.event_eq.symm))
  rw [List.forall₂_eq_eq_eq] at hevents
  exact hevents.symm

end Graph

end Statechart
