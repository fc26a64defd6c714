import Statechart.Proofs.Graph.Preorder

/-!
# Kinds of nodes

What the kind of a state says of its children and of its initial child. Registering the ids of a
tree checks the kind of each state on the way. Main statement: in a built graph every node is as
its kind demands, save that a compound state need not have children, and then has no initial child.
-/

namespace Statechart

namespace StateTree

variable {rootKey : String} {t : StateTree} {i : Nat} {path : List String} {ids ids' : Assoc Nat}
  {name : String} {kind : StateKind}

/-! ## 1. One state -/

/-- A state under which none may stand has none below it. -/
def ChildlessLeaf (d : StateDecl) (cs : Assoc StateTree) : Prop :=
  (state d cs).kind.isLeaf = true → cs = []

/-- A compound state that names its initial child has that child. -/
def InitialThere (d : StateDecl) (cs : Assoc StateTree) : Prop :=
  (state d cs).kind = .compound → ∀ key, d.initial = some key → ∃ c, cs.lookup key = some c

/-- The check of the children finds a state just where it has some that it may not have. -/
theorem checkLeaf_eq_ok_iff {d : StateDecl} {cs : Assoc StateTree} :
    checkLeaf rootKey path (state d cs) = .ok () ↔ ChildlessLeaf d cs := by
  unfold checkLeaf ChildlessLeaf
  rw [children_state]
  cases (state d cs).kind.isLeaf with
  | false => simp
  | true =>
    cases cs with
    | nil => simp
    | cons entry rest => simp

theorem checkInitial_eq_ok {d : StateDecl} {cs : Assoc StateTree}
    (h : checkInitial rootKey path (state d cs) = .ok ()) : InitialThere d cs := by
  intro hkind key hkey
  unfold checkInitial at h
  rw [decl_state, hkey] at h
  dsimp only at h
  rw [hkind, children_state] at h
  cases hc : cs.lookup key with
  | some c => exact ⟨c, rfl⟩
  | none =>
    rw [hc] at h
    cases h

theorem numberSiblings_eq_nil_iff {next : Nat} {cs : List (String × StateTree)} :
    numberSiblings next cs = [] ↔ cs = [] := by
  cases cs with
  | nil => exact iff_of_true rfl rfl
  | cons entry rest => exact iff_of_false (by simp [numberSiblings]) (by simp)

/-- A compound state without children is one because its kind is written. -/
theorem declared_of_compound {s : StateTree} (hkind : s.kind = .compound) (hcs : s.children = []) :
    s.decl.kind = some .compound := by
  unfold StateTree.kind at hkind
  cases hdecl : s.decl.kind with
  | some k =>
    rw [hdecl] at hkind
    exact congrArg some hkind
  | none =>
    rw [hdecl, hcs] at hkind
    cases hkind

/-! ## 2. All states -/

mutual

/-- **Where the ids of a tree are registered, every state is as its kind demands.** -/
theorem everywhere_of_register : {t : StateTree} → {i : Nat} → {path : List String} →
    {ids ids' : Assoc Nat} → register rootKey i path ids t = .ok ids' →
    t.Everywhere fun d cs => ChildlessLeaf d cs ∧ InitialThere d cs
  | state d cs, i, path, ids, ids', h => by
    obtain ⟨⟨⟩, hleaf, h⟩ := Outcome.bind_eq_ok.1 h
    obtain ⟨ids₁, -, h⟩ := Outcome.bind_eq_ok.1 h
    obtain ⟨ids₂, hbelow, h⟩ := Outcome.bind_eq_ok.1 h
    obtain ⟨⟨⟩, hinitial, -⟩ := Outcome.bind_eq_ok.1 h
    rw [Everywhere]
    exact ⟨⟨checkLeaf_eq_ok_iff.1 hleaf, checkInitial_eq_ok hinitial⟩,
      everywhereIn_of_registerAll hbelow⟩

theorem everywhereIn_of_registerAll : {cs : List (String × StateTree)} → {next : Nat} →
    {path : List String} → {ids ids' : Assoc Nat} →
    registerAll rootKey next path ids cs = .ok ids' →
    EverywhereIn (fun d cs => ChildlessLeaf d cs ∧ InitialThere d cs) cs
  | [], _, _, _, _, _ => trivial
  | (key, c) :: rest, next, path, ids, ids', h => by
    obtain ⟨ids₁, hc, hrest⟩ := Outcome.bind_eq_ok.1 h
    rw [EverywhereIn]
    exact ⟨everywhere_of_register hc, everywhereIn_of_registerAll hrest⟩

end

theorem registerAt_ne_unexpectedChildren :
    registerAt rootKey i path t ids ≠ .error (.unexpectedChildren name kind) := by
  intro h
  simp only [registerAt] at h
  split at h
  · cases h
  · split at h <;> cases h

theorem checkInitial_ne_unexpectedChildren :
    checkInitial rootKey path t ≠ .error (.unexpectedChildren name kind) := by
  intro h
  unfold checkInitial at h
  split at h
  · split at h <;> cases h
  · cases h

mutual

/-- **Where no state has children that it may not have, none is reported for them.** -/
theorem register_ne_unexpectedChildren : {t : StateTree} → {i : Nat} → {path : List String} →
    {ids : Assoc Nat} → t.Everywhere ChildlessLeaf →
    register rootKey i path ids t ≠ .error (.unexpectedChildren name kind)
  | state d cs, i, path, ids, ht => by
    rw [Everywhere] at ht
    have hleaf : checkLeaf rootKey path (state d cs) ≠ .error (.unexpectedChildren name kind) := by
      rw [checkLeaf_eq_ok_iff.2 ht.1]
      intro h
      cases h
    refine Outcome.bind_ne_error hleaf fun _ => ?_
    refine Outcome.bind_ne_error registerAt_ne_unexpectedChildren fun _ => ?_
    refine Outcome.bind_ne_error (registerAll_ne_unexpectedChildren ht.2) fun _ => ?_
    exact Outcome.bind_ne_error checkInitial_ne_unexpectedChildren fun _ h => by cases h

theorem registerAll_ne_unexpectedChildren : {cs : List (String × StateTree)} → {next : Nat} →
    {path : List String} → {ids : Assoc Nat} → EverywhereIn ChildlessLeaf cs →
    registerAll rootKey next path ids cs ≠ .error (.unexpectedChildren name kind)
  | [], _, _, _, _ => fun h => by cases h
  | (key, c) :: rest, next, path, ids, hcs => by
    rw [EverywhereIn] at hcs
    exact Outcome.bind_ne_error (register_ne_unexpectedChildren hcs.1) fun _ =>
      registerAll_ne_unexpectedChildren hcs.2

end

end StateTree

/-! ## 3. Nodes -/

theorem Layout.node?_ne_unexpectedChildren {l : Layout} {i : Nat} {p : Place} {d : StateDecl}
    {name : String} {kind : StateKind} :
    l.node? i p d ≠ .error (.unexpectedChildren name kind) := by
  have htransition (event : Event) (c : TransitionDecl) :
      l.transition? i p.id event c ≠ .error (.unexpectedChildren name kind) := by
    refine Outcome.bind_ne_error (Outcome.mapM_ne_error fun target h => ?_) fun _ h => by cases h
    split at h <;> cases h
  have hhistory : l.historyTarget? i p d ≠ .error (.unexpectedChildren name kind) := by
    intro h
    unfold historyTarget? at h
    split at h
    · split at h
      · split at h <;> cases h
      · cases h
    · cases h
  refine Outcome.bind_ne_error (Outcome.mapM_ne_error fun ec => htransition ec.1 ec.2) fun _ => ?_
  exact Outcome.bind_ne_error hhistory fun _ h => by cases h

/-- **The node `i` is as the kind of its state `s` demands.** -/
structure Node.SuitsKind (g : Graph) (i : Nat) (s : StateTree) (n : Node) : Prop where
  kind_eq : n.kind = s.kind
  /-- An initial child is one of the children. -/
  initial : ∀ j, n.initial = some j → ∃ key c, (key, j) ∈ n.states ∧ g.nodes[j]? = some c ∧
    c.parent = some i ∧ c.key = key
  /-- A compound node has as its initial child the one that is named, -/
  initial_of_named : n.kind = .compound → ∀ key, s.decl.initial = some key →
    ∃ j, n.states.lookup key = some j ∧ n.initial = some j
  /-- or else the first. -/
  initial_of_unnamed : n.kind = .compound → s.decl.initial = none →
    n.initial = n.states.head?.map Prod.snd
  /-- It has none only where it has no children, and that must be said of it by its kind. -/
  initial_eq_none_iff : n.kind = .compound →
    (n.initial = none ↔ s.decl.kind = some .compound ∧ n.states = [])
  /-- No other node has an initial child. -/
  initial_eq_none : n.kind ≠ .compound → n.initial = none
  /-- Final states and history states have no children. -/
  states_eq_nil : n.kind = .final ∨ n.kind = .history → n.states = []
  /-- History states, and no others, say how much they restore. -/
  history_iff : n.history.isSome = true ↔ n.kind = .history

namespace Graph

variable {t s : StateTree} {provided : Provided} {g : Graph} {i : Nat} {n : Node}
  {path : List String} {parent : Option Nat}

/-- Where no state has children that it may not have, a graph is built or another fault found. -/
theorem ofTree?_ne_unexpectedChildren (ht : t.Everywhere StateTree.ChildlessLeaf) {name : String}
    {kind : StateKind} : ofTree? t provided ≠ .error (.unexpectedChildren name kind) := by
  have hlayout : t.layout? ≠ .error (.unexpectedChildren name kind) :=
    Outcome.bind_ne_error (StateTree.register_ne_unexpectedChildren ht) fun _ h => by cases h
  refine Outcome.bind_ne_error hlayout fun l => ?_
  exact Outcome.bind_ne_error (Outcome.mapM_ne_error fun _ => Layout.node?_ne_unexpectedChildren)
    fun _ h => by cases h

section Placed

variable (hplace : n.toPlace = StateTree.placeAt t.rootKey i path parent s)
include hplace

theorem kind_of_place : n.kind = s.kind := by
  rw [hplace]
  rfl

theorem initial_of_place :
    n.initial = StateTree.initialOf n.kind s.decl.initial n.states := by
  rw [hplace]
  rfl

theorem states_eq_nil_iff : n.states = [] ↔ s.children = [] := by
  rw [hplace]
  exact StateTree.numberSiblings_eq_nil_iff

/-- A child that is named is known by its number, and is the initial one. -/
theorem exists_initial_of_named (hs : StateTree.Located t i path parent s)
    (hthere : StateTree.InitialThere s.decl s.children) (hcompound : n.kind = .compound)
    {key : String} (hkey : s.decl.initial = some key) :
    ∃ j, n.states.lookup key = some j ∧ n.initial = some j := by
  obtain ⟨c, hc⟩ := hthere ((kind_of_place hplace).symm.trans hcompound) key hkey
  obtain ⟨j, hj, -⟩ := hs.exists_lookup_states hc
  rw [← hplace] at hj
  have hinitial := initial_of_place hplace
  rw [hcompound, hkey] at hinitial
  exact ⟨j, hj, hinitial.trans hj⟩

theorem initial_of_unnamed (hcompound : n.kind = .compound) (hnone : s.decl.initial = none) :
    n.initial = n.states.head?.map Prod.snd := by
  have hinitial := initial_of_place hplace
  rw [hcompound, hnone] at hinitial
  exact hinitial

/-- Only a compound state without children, declared to be one, has no initial child. -/
theorem initial_eq_none_iff (hs : StateTree.Located t i path parent s)
    (hthere : StateTree.InitialThere s.decl s.children) (hcompound : n.kind = .compound) :
    n.initial = none ↔ s.decl.kind = some .compound ∧ n.states = [] := by
  have hdeclared (hempty : n.states = []) : s.decl.kind = some .compound :=
    StateTree.declared_of_compound ((kind_of_place hplace).symm.trans hcompound)
      ((states_eq_nil_iff hplace).1 hempty)
  cases hdecl : s.decl.initial with
  | some key =>
    -- the named child is there, so there are children
    obtain ⟨j, hj, hinitial⟩ := exists_initial_of_named hplace hs hthere hcompound hdecl
    rw [hinitial]
    refine iff_of_false (by simp) fun h => ?_
    rw [h.2] at hj
    cases hj
  | none =>
    rw [initial_of_unnamed hplace hcompound hdecl, Option.map_eq_none_iff, List.head?_eq_none_iff]
    constructor
    · intro hempty
      exact ⟨hdeclared hempty, hempty⟩
    · intro h
      exact h.2

end Placed

theorem history_of_node? {l : Layout} {p : Place} {d : StateDecl} (h : l.node? i p d = .ok n) :
    n.history.isSome = true ↔ n.kind = .history := by
  obtain ⟨trs, -, h⟩ := Outcome.bind_eq_ok.1 h
  obtain ⟨o, -, h⟩ := Outcome.bind_eq_ok.1 h
  obtain rfl := Except.ok.inj h
  dsimp only
  by_cases hkind : p.kind = .history
  · simp [hkind]
  · simp [hkind]

/-- **In a built graph every node is as the kind of its state demands.** Final states and history
states have no children, an initial child is had by compound states alone and is the one they name
or else their first, and only a compound state that has no children has none. -/
theorem suitsKind_of_ofTree? (hg : ofTree? t provided = .ok g) (i : Nat) (n : Node)
    (hn : g.nodes[i]? = some n) : ∃ path parent s, StateTree.Located t i path parent s ∧
      n.path = path ∧ n.SuitsKind g i s := by
  obtain ⟨path, parent, s, hs, hplace⟩ := located_of_node hg hn
  obtain ⟨n', hn', -, hnode⟩ := exists_node hg hs
  obtain rfl := Option.some.inj (hn.symm.trans hn')
  have hchecked := StateTree.everywhere_of_register
    (StateTree.register_of_layout? (ofTree?_eq_ok hg).1)
  obtain ⟨hleaf, hthere⟩ := (hs.everywhere_of hchecked).here
  have hkind : n.kind = s.kind := kind_of_place hplace
  have hinitial := initial_of_place hplace
  refine ⟨path, parent, s, hs, by rw [hplace]; rfl, ?_⟩
  exact {
    kind_eq := hkind
    initial := by
      intro j hj
      obtain ⟨key, hkey⟩ := StateTree.mem_of_initialOf (hinitial.symm.trans hj)
      obtain ⟨c, hc⟩ := child_of_mem_states hg hn hkey
      exact ⟨key, c, hkey, hc⟩
    initial_of_named := fun hcompound _ hkey =>
      exists_initial_of_named hplace hs hthere hcompound hkey
    initial_of_unnamed := initial_of_unnamed hplace
    initial_eq_none_iff := initial_eq_none_iff hplace hs hthere
    initial_eq_none := fun hother => hinitial.trans (if_neg hother)
    states_eq_nil := by
      intro hends
      refine (states_eq_nil_iff hplace).2 (hleaf ?_)
      rw [hkind] at hends
      rcases hends with hends | hends
      · exact congrArg StateKind.isLeaf hends
      · exact congrArg StateKind.isLeaf hends
    history_iff := history_of_node? hnode }

/-- A player with states of all kinds, one of which is to have states below it but has none. -/
def player : StateTree :=
  .state { id := some "player", initial := some "playing" } [
    ("queue", .state { kind := some .compound } []),
    ("playing", .state { kind := some .parallel } [
      ("sound", .state {} [("on", .empty), ("muted", .empty)]),
      ("picture", .empty)]),
    ("resumed", .state { kind := some .history } []),
    ("over", .state { kind := some .final } [])]

/-- The compound state without children is the only one that lacks an initial child. -/
theorem kinds_of_player : ∃ g, ofTree? player {} = .ok g ∧
    g.nodes.map (fun n => (n.path, n.kind, n.initial)) =
      [([], .compound, some 2), (["queue"], .compound, none), (["playing"], .parallel, none),
        (["playing", "sound"], .compound, some 4), (["playing", "sound", "on"], .atomic, none),
        (["playing", "sound", "muted"], .atomic, none), (["playing", "picture"], .atomic, none),
        (["resumed"], .history, none), (["over"], .final, none)] ∧
    ∀ i n, g.nodes[i]? = some n → ∃ path parent s, StateTree.Located player i path parent s ∧
      n.path = path ∧ n.SuitsKind g i s := by
  obtain ⟨g, hg, hnodes⟩ := Outcome.exists_eq_ok (show (ofTree? player {}).toOption.any (fun g =>
    decide (g.nodes.map (fun n => (n.path, n.kind, n.initial)) =
      [([], .compound, some 2), (["queue"], .compound, none), (["playing"], .parallel, none),
        (["playing", "sound"], .compound, some 4), (["playing", "sound", "on"], .atomic, none),
        (["playing", "sound", "muted"], .atomic, none), (["playing", "picture"], .atomic, none),
        (["resumed"], .history, none), (["over"], .final, none)])) = true by decide +kernel)
  exact ⟨g, hg, of_decide_eq_true hnodes, suitsKind_of_ofTree? hg⟩

end Graph

end Statechart
