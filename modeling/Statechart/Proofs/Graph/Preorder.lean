import Mathlib.Data.List.Induction
import Statechart.Proofs.Graph.Transitions

/-!
# A graph as the image of its definition

The nodes of a built graph are the states of the definition in preorder: a state comes before those
below it, and these come in the order in which they are written. Parents, children, runs of states
below a state, paths and ids all follow the tree. Main statement: `Graph.PreorderImage` holds of
every graph that is built.
-/

namespace Statechart

/-! ## 1. States in preorder -/

namespace StateTree

mutual

/-- A state that stands at the end of `path` and the states below it, with their paths. -/
def preorderFrom (path : List String) : StateTree → List (List String × StateTree)
  | state d cs => (path, state d cs) :: preorderOfAll path cs

/-- The states of the trees below the end of `path`, with their paths. -/
def preorderOfAll (path : List String) : List (String × StateTree) → List (List String × StateTree)
  | [] => []
  | (key, t) :: rest => preorderFrom (path ++ [key]) t ++ preorderOfAll path rest

end

/-- All states of a tree with their paths, in preorder. -/
def preorder (t : StateTree) : List (List String × StateTree) := preorderFrom [] t

mutual

/-- The places of a state and of those below it are made from them one by one. -/
theorem placesFrom_preorder (rootKey : String) (i : Nat) (path : List String)
    (parent : Option Nat) : (s : StateTree) → List.Forall₂
      (fun ps pd => ∃ j parent', pd = (placeAt rootKey j ps.1 parent' ps.2, ps.2.decl))
      (preorderFrom path s) (placesFrom rootKey i path parent s)
  | state d cs => by
    rw [preorderFrom, placesFrom]
    exact .cons ⟨i, parent, rfl⟩ (placesOfAll_preorder rootKey (i + 1) path i cs)

theorem placesOfAll_preorder (rootKey : String) (next : Nat) (path : List String) (parent : Nat) :
    (cs : List (String × StateTree)) → List.Forall₂
      (fun ps pd => ∃ j parent', pd = (placeAt rootKey j ps.1 parent' ps.2, ps.2.decl))
      (preorderOfAll path cs) (placesOfAll rootKey next path parent cs)
  | [] => .nil
  | (key, c) :: rest => by
    rw [preorderOfAll, placesOfAll]
    exact List.rel_append (placesFrom_preorder rootKey next (path ++ [key]) (some parent) c)
      (placesOfAll_preorder rootKey (next + c.size) path parent rest)

end

theorem keys_numberSiblings (next : Nat) (cs : List (String × StateTree)) :
    Assoc.keys (numberSiblings next cs) = Assoc.keys cs := by
  induction cs generalizing next with
  | nil => rfl
  | cons entry rest ih =>
    obtain ⟨key, c⟩ := entry
    rw [numberSiblings, Assoc.keys_cons, Assoc.keys_cons, ih]

/-- The initial child is one of the children. -/
theorem mem_of_initialOf {kind : StateKind} {named : Option String} {states : Assoc Nat} {j : Nat}
    (h : initialOf kind named states = some j) : ∃ key, (key, j) ∈ states := by
  unfold initialOf at h
  split at h
  · cases named with
    | some key => exact ⟨key, Assoc.mem_of_lookup h⟩
    | none =>
      obtain ⟨⟨key, k⟩, hhead, rfl⟩ := Option.map_eq_some_iff.1 h
      exact ⟨key, List.mem_of_head? hhead⟩
  · cases h

end StateTree

/-- Of the places that are called by one name the first is registered under it. -/
theorem Layout.exists_registered {l : Layout} {rootKey r : String} {i : Nat} {p : Place}
    (hp : l.places[i]? = some p) (hcalled : p.Called rootKey r) :
    ∃ j, l.Registered rootKey r j := by
  induction i using Nat.strongRecOn generalizing p with
  | ind i ih =>
    by_cases hbefore : ∃ k < i, ∃ q, l.places[k]? = some q ∧ q.Called rootKey r
    · obtain ⟨k, hk, q, hq, hqr⟩ := hbefore
      exact ih k hk hq hqr
    · exact ⟨i, ⟨p, hp, hcalled⟩, fun k hk q hq hqr => hbefore ⟨k, hk, q, hq, hqr⟩⟩

/-! ## 2. Walking with a stack -/

/-- **A walk through a layout**: of a stack of numbers the topmost is visited, and its children are
put on the stack in its stead, the first of them on top. -/
inductive Layout.Walk (l : Layout) : (stack visited : List Nat) → Prop
  | done : Walk l [] []
  | visit {i : Nat} {p : Place} {stack visited : List Nat} (hp : l.places[i]? = some p)
      (rest : Walk l (p.states.map Prod.snd ++ stack) visited) : Walk l (i :: stack) (i :: visited)

/-- A stack is walked in one way only. -/
theorem Layout.Walk.unique {l : Layout} {stack visited visited' : List Nat}
    (h : l.Walk stack visited) (h' : l.Walk stack visited') : visited = visited' := by
  induction h generalizing visited' with
  | done =>
    cases h'
    rfl
  | visit hp rest ih =>
    cases h' with
    | visit hp' rest' =>
      obtain rfl := Option.some.inj (hp.symm.trans hp')
      rw [ih rest']

namespace StateTree

variable {t s s' : StateTree} {l : Layout} {i j : Nat} {path rel : List String}
  {parent parent' : Option Nat}

mutual

/-- **Walking from a state visits it and all below it before the rest of the stack.** -/
theorem Located.walk (hl : l.places = t.placesWithDecls.map Prod.fst) : {s : StateTree} →
    {i : Nat} → {path : List String} → {parent : Option Nat} → Located t i path parent s →
    {stack visited : List Nat} → l.Walk stack visited →
    l.Walk (i :: stack) (List.range' i s.size ++ visited)
  | state d cs, i, path, parent, h, stack, visited, rest => by
    rw [size, Nat.add_comm 1, List.range'_succ]
    exact .visit (h.place hl) (Located.walk_below hl [] h rest)

theorem Located.walk_below (hl : l.places = t.placesWithDecls.map Prod.fst) :
    {cs : List (String × StateTree)} → {i : Nat} → {path : List String} →
    {parent : Option Nat} → {d : StateDecl} → (before : List (String × StateTree)) →
    Located t i path parent (state d (before ++ cs)) →
    {stack visited : List Nat} → l.Walk stack visited →
    l.Walk ((numberSiblings (i + 1 + sizeAll before) cs).map Prod.snd ++ stack)
      (List.range' (i + 1 + sizeAll before) (sizeAll cs) ++ visited)
  | [], _, _, _, _, _, _, _, _, rest => rest
  | (key, c) :: cs, i, path, parent, d, before, h, stack, visited, rest => by
    have hrest := Located.walk_below hl _ h.past rest
    rw [sizeAll_concat, ← Nat.add_assoc] at hrest
    have hwalk := Located.walk hl (.child before cs h) hrest
    rw [← List.append_assoc, List.range'_append_1] at hwalk
    rw [numberSiblings, sizeAll]
    exact hwalk

end

/-! ## 3. Paths and numbers below a state -/

/-- A number has one path. -/
theorem Located.path_unique {path' : List String} (h : Located t i path parent s)
    (h' : Located t i path' parent' s') : path = path' := by
  have hplace := h.getElem?.symm.trans h'.getElem?
  exact congrArg (fun pd : Place × StateDecl => pd.1.path) (Option.some.inj hplace)

/-- What lies below a state by its path has its number among those of the state. -/
theorem Located.le_of_append (hd : t.KeysDistinct) (h : Located t i path parent s)
    (h' : Located t j (path ++ rel) parent' s') : i ≤ j ∧ j + s'.size ≤ i + s.size := by
  induction rel using List.reverseRecOn generalizing j parent' s' with
  | nil =>
    rw [List.append_nil] at h'
    obtain ⟨rfl, -⟩ := h.number_unique hd.everywhere h'
    obtain rfl := Option.some.inj ((h.at?_eq hd.everywhere).symm.trans (h'.at?_eq hd.everywhere))
    exact ⟨Nat.le_refl _, Nat.le_refl _⟩
  | append_singleton rel key ih =>
    rw [← List.append_assoc] at h'
    obtain ⟨i₀, parent₀, d, before, after, rfl, rfl, h₀⟩ := h'.of_concat
    obtain ⟨hle, hsize⟩ := ih h₀
    rw [size, sizeAll_append, sizeAll] at hsize
    omega

/-- **The numbers from that of a state on, as many as there are states in it, are those of the
states whose paths go on from its own.** -/
theorem Located.mem_range_iff (hd : t.KeysDistinct) (h : Located t i path parent s)
    {path' : List String} (h' : Located t j path' parent' s') :
    j ∈ List.range' i s.size ↔ path <+: path' := by
  rw [List.mem_range'_1]
  constructor
  · rintro ⟨hij, hj⟩
    obtain ⟨rel, parent'', s'', h''⟩ := h.exists_add (j - i) (by omega)
    rw [Nat.add_sub_cancel' hij] at h''
    rw [h'.path_unique h'']
    exact List.prefix_append path rel
  · rintro ⟨rel, rfl⟩
    obtain ⟨hle, hsize⟩ := h.le_of_append hd h'
    have := size_pos s'
    omega

/-- **Below a state are the numbers of those whose paths go on from its own.** -/
theorem Located.mem_below_iff (hl : l.places = t.placesWithDecls.map Prod.fst) (hd : t.KeysDistinct)
    (h : Located t i path parent s) {q : Place} (hq : l.places[j]? = some q) :
    j ∈ l.below i ↔ path <+: q.path := by
  obtain ⟨path', parent', s', h', rfl⟩ := located_of_place hl hq
  rw [h.below_eq hl]
  exact h.mem_range_iff hd h'

/-- What a target is looked up to is the number of a place. -/
theorem exists_place_of_resolve? (hl : t.layout? = .ok l) {p : Place} (hp : l.places[i]? = some p)
    {target : String} (h : l.resolve? i target = some j) : ∃ q, l.places[j]? = some q := by
  cases denotes_of_resolve? hl hp h with
  | bare _ _ hq _ => exact ⟨_, hq⟩
  | inner _ hq _ => exact ⟨_, hq⟩
  | byName hj =>
    obtain ⟨q, hq, -⟩ := hj.1
    exact ⟨q, hq⟩
  | belowName _ _ _ _ hq _ => exact ⟨_, hq⟩

end StateTree

/-! ## 4. Nodes and states -/

/-- **The node is that of the state `s` at the end of `path`.** -/
structure Node.Depicts (rootKey : String) (path : List String) (s : StateTree) (n : Node) :
    Prop where
  path_eq : n.path = path
  key_eq : n.key = path.getLastD rootKey
  id_eq : n.id = s.decl.id.getD (Dotted.join (rootKey :: path))
  explicitId_eq : n.explicitId = s.decl.id.isSome
  kind_eq : n.kind = s.kind
  /-- The children have the keys of the children of the state, in the same order. -/
  keys_eq : n.states.keys = s.children.keys
  entry_eq : n.entry = s.decl.entry
  exit_eq : n.exit = s.decl.exit
  activities_eq : n.activities = s.decl.activities

namespace Graph

variable {t s : StateTree} {provided : Provided} {g : Graph} {i j : Nat} {n : Node}
  {path : List String} {parent : Option Nat}

theorem depicts_of_node? {l : Layout} (h : l.node? j
    (StateTree.placeAt t.rootKey i path parent s) s.decl = .ok n) :
    n.Depicts t.rootKey path s := by
  obtain ⟨trs, -, h⟩ := Outcome.bind_eq_ok.1 h
  obtain ⟨o, -, h⟩ := Outcome.bind_eq_ok.1 h
  obtain rfl := Except.ok.inj h
  exact ⟨rfl, rfl, rfl, rfl, rfl, StateTree.keys_numberSiblings _ _, rfl, rfl, rfl⟩

theorem node_of_place {q : Place} (hq : g.layout.places[j]? = some q) :
    ∃ m, g.nodes[j]? = some m ∧ m.toPlace = q := by
  rw [places_layout, List.getElem?_map] at hq
  exact Option.map_eq_some_iff.1 hq

theorem lt_size_of_place {q : Place} (hq : g.layout.places[j]? = some q) : j < g.size := by
  obtain ⟨m, hm, -⟩ := node_of_place hq
  exact (List.getElem?_eq_some_iff.1 hm).1

section Built

variable (hg : ofTree? t provided = .ok g)
include hg

theorem places_of_ofTree? : g.layout.places = t.placesWithDecls.map Prod.fst :=
  StateTree.places_of_layout? (ofTree?_eq_ok hg).1

/-- There are as many nodes as states. -/
theorem size_of_ofTree? : g.size = t.size := by
  have hlength := congrArg List.length (places_of_ofTree? hg)
  rw [places_layout, List.length_map, List.length_map, StateTree.length_placesWithDecls] at hlength
  exact hlength

/-- **There is one node for each state, in preorder.** -/
theorem depicts_preorder :
    List.Forall₂ (fun ps n => n.Depicts t.rootKey ps.1 ps.2) t.preorder g.nodes := by
  have hnodes : List.Forall₂ (fun pd n => ∃ j, g.layout.node? j pd.1 pd.2 = .ok n)
      t.placesWithDecls g.nodes := by
    rw [← List.zipIdx_map_fst 0 t.placesWithDecls, List.forall₂_map_left_iff]
    exact (ofTree?_eq_ok hg).2.imp fun pd n h => ⟨pd.2, h⟩
  refine Outcome.forall₂_trans ?_ (StateTree.placesFrom_preorder t.rootKey 0 [] none t) hnodes
  rintro ⟨path, s⟩ _ n ⟨i, parent, rfl⟩ ⟨j, hn⟩
  exact depicts_of_node? hn

/-- Every node is that of a state. -/
theorem located_of_node (hn : g.nodes[i]? = some n) : ∃ path parent s,
    StateTree.Located t i path parent s ∧
      n.toPlace = StateTree.placeAt t.rootKey i path parent s :=
  StateTree.located_of_place (places_of_ofTree? hg) (place_of_node hn)

/-! ## 5. Numbers that are stored -/

theorem lt_size_of_located (hs : StateTree.Located t i path parent s) : i < g.size :=
  lt_size_of_place (hs.place (places_of_ofTree? hg))

/-- The children of a node are numbers of nodes. -/
theorem lt_size_of_mem_states (hn : g.nodes[i]? = some n) {key : String}
    (hj : (key, j) ∈ n.states) : j < g.size := by
  obtain ⟨path, parent, s, hs, hplace⟩ := located_of_node hg hn
  rw [hplace] at hj
  obtain ⟨c, hc⟩ := hs.of_mem_states hj
  exact lt_size_of_located hg hc

theorem lt_size_of_initial (hn : g.nodes[i]? = some n) (hj : n.initial = some j) : j < g.size := by
  obtain ⟨path, parent, s, hs, hplace⟩ := located_of_node hg hn
  have hinitial : StateTree.initialOf n.kind s.decl.initial n.states = some j := by
    rw [hplace] at hj ⊢
    exact hj
  obtain ⟨key, hkey⟩ := StateTree.mem_of_initialOf hinitial
  exact lt_size_of_mem_states hg hn hkey

theorem lt_size_of_resolve? (hn : g.nodes[i]? = some n) {target : String}
    (hj : g.layout.resolve? i target = some j) : j < g.size := by
  obtain ⟨q, hq⟩ :=
    StateTree.exists_place_of_resolve? (ofTree?_eq_ok hg).1 (place_of_node hn) hj
  exact lt_size_of_place hq

theorem lt_size_of_mem_targets (hn : g.nodes[i]? = some n) {tr : Transition}
    (htr : tr ∈ n.transitions) (hj : j ∈ tr.targets) : j < g.size := by
  obtain ⟨path, parent, s, hs, hplace⟩ := located_of_node hg hn
  obtain ⟨n', hn', -, hnode⟩ := exists_node hg hs
  obtain rfl := Option.some.inj (hn.symm.trans hn')
  obtain ⟨-, htrs, -⟩ := Layout.node?_eq_ok hnode
  obtain ⟨ec, -, hec⟩ := Outcome.exists_left_of_mem htrs htr
  obtain ⟨-, -, -, htargets⟩ := Layout.transition?_eq_ok hec
  obtain ⟨target, -, htarget⟩ := Outcome.exists_left_of_mem htargets hj
  exact lt_size_of_resolve? hg hn htarget

theorem lt_size_of_historyTarget (hn : g.nodes[i]? = some n) (hj : n.historyTarget = some j) :
    j < g.size := by
  obtain ⟨path, parent, s, hs, hplace⟩ := located_of_node hg hn
  obtain ⟨n', hn', -, hnode⟩ := exists_node hg hs
  obtain rfl := Option.some.inj (hn.symm.trans hn')
  obtain ⟨-, -, hhist⟩ := Layout.node?_eq_ok hnode
  obtain ⟨hsome, hresolve⟩ := Layout.historyTarget?_eq_ok hhist
  obtain ⟨-, htarget⟩ := hsome.1 (by rw [hj]; rfl)
  obtain ⟨target, htarget⟩ := Option.isSome_iff_exists.1 htarget
  exact lt_size_of_resolve? hg hn (hresolve target htarget j hj)

/-! ## 6. Parents and children -/

/-- **Only the first node has no parent.** -/
theorem parent_eq_none_iff (hn : g.nodes[i]? = some n) : n.parent = none ↔ i = 0 := by
  obtain ⟨path, parent, s, hs, hplace⟩ := located_of_node hg hn
  have hparent : n.parent = parent := by rw [hplace]; rfl
  rw [hparent]
  cases hs with
  | root => exact iff_of_true rfl rfl
  | child before after h => exact iff_of_false (by simp) (by omega)

/-- **A parent stands before its children, one key higher, and knows them by their keys.** -/
theorem parent_of_ofTree? (ht : t.KeysDistinct) (hn : g.nodes[i]? = some n)
    (hj : n.parent = some j) : j < i ∧ ∃ m, g.nodes[j]? = some m ∧ n.path = m.path ++ [n.key] ∧
      m.states.lookup n.key = some i := by
  obtain ⟨path, parent, s, hs, hplace⟩ := located_of_node hg hn
  have hparent : n.parent = parent := by rw [hplace]; rfl
  rw [hparent] at hj
  subst hj
  obtain ⟨hlt, path₀, key, parent₀, s₀, rfl, h₀, hkey⟩ := hs.of_parent
  obtain ⟨m, hm, hmplace, -⟩ := exists_node hg h₀
  have hnkey : n.key = key := by
    rw [hplace]
    exact List.getLastD_concat
  have hnpath : n.path = path₀ ++ [key] := by rw [hplace]; rfl
  have hmpath : m.path = path₀ := by rw [hmplace]; rfl
  have hlookup : s₀.children.lookup key = some s :=
    (h₀.everywhere_of ht.everywhere).here.lookup_of_mem hkey
  obtain ⟨k, hk, hlk⟩ := h₀.exists_lookup_states hlookup
  obtain ⟨rfl, -⟩ := hlk.number_unique ht.everywhere hs
  refine ⟨hlt, m, hm, by rw [hnpath, hmpath, hnkey], ?_⟩
  rw [hnkey, hmplace]
  exact hk

/-- **A child that a node knows by a key has the node as its parent and the key as its own.** -/
theorem child_of_mem_states (hn : g.nodes[i]? = some n) {key : String} (hj : (key, j) ∈ n.states) :
    ∃ c, g.nodes[j]? = some c ∧ c.parent = some i ∧ c.key = key := by
  obtain ⟨path, parent, s, hs, hplace⟩ := located_of_node hg hn
  rw [hplace] at hj
  obtain ⟨c, hc⟩ := hs.of_mem_states hj
  obtain ⟨m, hm, hmplace, -⟩ := exists_node hg hc
  refine ⟨m, hm, by rw [hmplace]; rfl, ?_⟩
  rw [hmplace]
  exact List.getLastD_concat

/-! ## 7. Finding nodes -/

/-- **What lies below a node is a run of numbers**: those of the nodes whose paths go on from its
own, in the order in which a walk with a stack visits them. -/
theorem below_of_ofTree? (ht : t.KeysDistinct) (hn : g.nodes[i]? = some n) :
    (∃ k, i + k ≤ g.size ∧ g.layout.below i = List.range' i k) ∧
      (∀ j m, g.nodes[j]? = some m → (j ∈ g.layout.below i ↔ n.path <+: m.path)) ∧
      ∀ visited, g.layout.Walk [i] visited ↔ visited = g.layout.below i := by
  have hl := places_of_ofTree? hg
  obtain ⟨path, parent, s, hs, hplace⟩ := located_of_node hg hn
  have hpath : n.path = path := by rw [hplace]; rfl
  have hbelow := hs.below_eq hl
  refine ⟨⟨s.size, ?_, hbelow⟩, fun j m hm => ?_, fun visited => ?_⟩
  · have hs' : StateTree.Located t i ([] ++ path) parent s := hs
    have hsize := (StateTree.Located.root.le_of_append ht hs').2
    have htotal := size_of_ofTree? hg
    omega
  · rw [hpath]
    exact hs.mem_below_iff hl ht (place_of_node hm)
  · have hwalk := hs.walk hl .done
    rw [List.append_nil, ← hbelow] at hwalk
    constructor
    · intro hv
      exact hv.unique hwalk
    · rintro rfl
      exact hwalk

/-- **A path leads to the node that has it**, where no key of it is empty. -/
theorem byPath?_own_iff (ht : t.KeysDistinct) (hn : g.nodes[i]? = some n) :
    g.layout.byPath? n.path = some i ↔ "" ∉ n.path := by
  have hl := (ofTree?_eq_ok hg).1
  have hroot := StateTree.Located.root (t := t)
  have h₀ := hroot.place (places_of_ofTree? hg)
  constructor
  · intro hi
    exact (hroot.of_descend? (places_of_ofTree? hg) hi).1
  · intro hkeys
    exact StateTree.descend?_of_path hl ht h₀ (place_of_node hn) hkeys rfl

theorem path_of_byPath? (hi : g.layout.byPath? path = some i) :
    ∃ n, g.nodes[i]? = some n ∧ n.path = path := by
  have h₀ := (StateTree.Located.root (t := t)).place (places_of_ofTree? hg)
  obtain ⟨q, hq, hpath⟩ := StateTree.path_of_descend? (ofTree?_eq_ok hg).1 h₀ hi
  obtain ⟨n, hn, rfl⟩ := node_of_place hq
  exact ⟨n, hn, hpath⟩

/-- **The id that a path spells is known**: as that of the first node that is called by it. -/
theorem exists_byId?_derived (hn : g.nodes[i]? = some n) :
    ∃ j, g.layout.byId? (Dotted.join (t.rootKey :: n.path)) = some j ∧
      g.layout.Registered t.rootKey (Dotted.join (t.rootKey :: n.path)) j := by
  have hl := (ofTree?_eq_ok hg).1
  have hcalled : (Node.toPlace n).Called t.rootKey (Dotted.join (t.rootKey :: n.path)) := Or.inr rfl
  obtain ⟨j, hj⟩ := Layout.exists_registered (place_of_node hn) hcalled
  exact ⟨j, (StateTree.byId?_eq_some_iff hl).2 hj, hj⟩

/-- **Two nodes have two ids.** -/
theorem nodup_ids : (g.nodes.map fun n => n.id).Nodup := by
  rw [List.Nodup, List.pairwise_map, List.pairwise_iff_getElem]
  intro i j hi hj hij hid
  have hp := place_of_node (List.getElem?_eq_getElem hi)
  have hq := place_of_node (List.getElem?_eq_getElem hj)
  have := StateTree.id_injective (ofTree?_eq_ok hg).1 hp hq hid
  omega

end Built

/-! ## 8. The image of a definition -/

/-- **The graph is the image of the definition in preorder.** -/
structure PreorderImage (g : Graph) (t : StateTree) : Prop where
  /-- The nodes are the states in preorder, one node for each. -/
  nodes : List.Forall₂ (fun ps n => n.Depicts t.rootKey ps.1 ps.2) t.preorder g.nodes
  /-- The first node has the empty path, -/
  root_path : ∃ n : Node, g.nodes[0]? = some n ∧ n.path = []
  /-- and it alone has no parent. -/
  parent_eq_none_iff : ∀ (i : Nat) (n : Node), g.nodes[i]? = some n → (n.parent = none ↔ i = 0)
  /-- A parent comes before its children, one key higher, and knows them by their keys. -/
  parent : ∀ (i : Nat) (n : Node) (j : Nat), g.nodes[i]? = some n → n.parent = some j →
    j < i ∧ ∃ m : Node, g.nodes[j]? = some m ∧ n.path = m.path ++ [n.key] ∧
      m.states.lookup n.key = some i
  /-- What a node has as a child has the node as its parent. -/
  child : ∀ (i : Nat) (n : Node) (key : String) (j : Nat), g.nodes[i]? = some n →
    (key, j) ∈ n.states → ∃ c : Node, g.nodes[j]? = some c ∧ c.parent = some i ∧ c.key = key
  /-- Every number that is stored in a node is that of a node. -/
  lt_size : ∀ n ∈ g.nodes, (∀ j, n.parent = some j → j < g.size) ∧
    (∀ key j, (key, j) ∈ n.states → j < g.size) ∧ (∀ j, n.initial = some j → j < g.size) ∧
    (∀ tr ∈ n.transitions, ∀ j ∈ tr.targets, j < g.size) ∧
    ∀ j, n.historyTarget = some j → j < g.size
  /-- Below a node stands one run of numbers, those of the nodes whose paths go on from its own, in
  the order in which a walk with a stack visits them. -/
  below : ∀ (i : Nat) (n : Node), g.nodes[i]? = some n →
    (∃ k, i + k ≤ g.size ∧ g.layout.below i = List.range' i k) ∧
      (∀ (j : Nat) (m : Node), g.nodes[j]? = some m → (j ∈ g.layout.below i ↔ n.path <+: m.path)) ∧
      ∀ visited, g.layout.Walk [i] visited ↔ visited = g.layout.below i
  /-- What is found by a path has that path, -/
  path_of_byPath? : ∀ path i, g.layout.byPath? path = some i →
    ∃ n : Node, g.nodes[i]? = some n ∧ n.path = path
  /-- and a node is found by its path where no key of it is empty. -/
  byPath?_own_iff : ∀ (i : Nat) (n : Node), g.nodes[i]? = some n →
    (g.layout.byPath? n.path = some i ↔ "" ∉ n.path)
  /-- Ids are distinct, -/
  ids : (g.nodes.map fun n => n.id).Nodup
  /-- each leads to its node, -/
  byId?_own : ∀ (i : Nat) (n : Node), g.nodes[i]? = some n → g.layout.byId? n.id = some i
  /-- and the id that the path of a node spells leads to the first node that is called by it. -/
  byId?_derived : ∀ (i : Nat) (n : Node), g.nodes[i]? = some n →
    ∃ j, g.layout.byId? (Dotted.join (t.rootKey :: n.path)) = some j ∧
      g.layout.Registered t.rootKey (Dotted.join (t.rootKey :: n.path)) j

/-- **A built graph is the image of its definition in preorder.** -/
theorem preorderImage_of_ofTree? (ht : t.KeysDistinct) (hg : ofTree? t provided = .ok g) :
    g.PreorderImage t where
  nodes := depicts_preorder hg
  root_path := by
    obtain ⟨n, hn, hplace, -⟩ := exists_node hg .root
    exact ⟨n, hn, by rw [hplace]; rfl⟩
  parent_eq_none_iff _ _ hn := parent_eq_none_iff hg hn
  parent _ _ _ hn hj := parent_of_ofTree? hg ht hn hj
  child _ _ _ _ hn hj := child_of_mem_states hg hn hj
  lt_size n hn := by
    obtain ⟨i, hi⟩ := List.mem_iff_getElem?.1 hn
    refine ⟨fun j hj => ?_, fun key j hj => lt_size_of_mem_states hg hi hj,
      fun j hj => lt_size_of_initial hg hi hj,
      fun tr htr j hj => lt_size_of_mem_targets hg hi htr hj,
      fun j hj => lt_size_of_historyTarget hg hi hj⟩
    have hlt := (parent_of_ofTree? hg ht hi hj).1
    have hsize := (List.getElem?_eq_some_iff.1 hi).1
    exact Nat.lt_trans hlt hsize
  below _ _ hn := below_of_ofTree? hg ht hn
  path_of_byPath? _ _ hi := path_of_byPath? hg hi
  byPath?_own_iff _ _ hn := byPath?_own_iff hg ht hn
  ids := nodup_ids hg
  byId?_own _ _ hn := StateTree.byId?_own (ofTree?_eq_ok hg).1 (place_of_node hn)
  byId?_derived _ _ hn := exists_byId?_derived hg hn

theorem preorderImage_door : ∃ g, ofTree? door {} = .ok g ∧ door.KeysDistinct ∧
    g.PreorderImage door ∧ g.nodes.map (fun n => n.path) =
      [[], ["closed"], ["opened"], ["opened", "ajar"], ["opened", "wide"], ["opened", "last"]] := by
  obtain ⟨g, hg, hpaths⟩ := Outcome.exists_eq_ok (x := ofTree? door {})
    (p := fun g => decide (g.nodes.map (fun n => n.path) =
      [[], ["closed"], ["opened"], ["opened", "ajar"], ["opened", "wide"], ["opened", "last"]]))
    (by decide +kernel)
  exact ⟨g, hg, keysDistinct_door, preorderImage_of_ofTree? keysDistinct_door hg,
    of_decide_eq_true hpaths⟩

end Graph

end Statechart
